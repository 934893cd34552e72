/-!
# ASCII letters without regard to case

Names of elements, attributes and style properties are compared without regard to the case of ASCII
letters; other letters have to agree.
-/

namespace HtmlTemplate.Text

/-- ASCII capitals in lower case. -/
def lowerAscii (s : List Char) : List Char := s.map Char.toLower

/-- A string with its ASCII capitals in lower case. -/
def lowered (s : String) : String := String.ofList (lowerAscii s.toList)

/-- Are two strings equal apart from the case of ASCII letters? -/
def sameAsciiLetters (s t : String) : Bool := lowerAscii s.toList == lowerAscii t.toList

/-- Does `s` begin with a text in lower case, apart from the case of ASCII letters? -/
def beginsWithLowered (start s : List Char) : Bool :=
  start.isPrefixOf (lowerAscii (s.take start.length))

end HtmlTemplate.Text

import HtmlTemplate.Number.Reading
import HtmlTemplate.Proofs.Number.Grammar
import HtmlTemplate.Proofs.Text.ByteClasses

/-!
# Which texts are numbers

A number is written as a literal, that is, a decimal or the word for infinity, with an optional sign
(`IsLiteral`), or in hexadecimal without a sign, and nothing at all is zero (`IsNumeral`). The
reader of whole texts takes exactly these, each as the double nearest to its value, and everything
else as not a number (`ofText_reads_numerals`).

## By a filter

The decimals can be read by a reader of more than decimals, which takes words for infinity and for
not a number in letters of any case. The bytes of the text are looked at first, so that it is asked
only where no word can be (`ofTrimmedByFilter_eq`).

## Words

The word for infinity is a literal in one spelling only, and the words of the general reader in any.
Not one of their letters can stand in a decimal but the mark of an exponent, so a text that the
filter lets through is a decimal or no number for either reader.
-/

namespace HtmlTemplate.Number

variable {s t hex : List Char} {v : Rat} {x y : Float} {negative : Bool}

/-! ## Written numbers -/

/-- A decimal or the word for infinity, with an optional sign, and its value. -/
inductive IsLiteral : List Char → Float → Prop
  | word {sign : List Char} {negative : Bool} (hsign : IsSign sign negative) :
    IsLiteral (sign ++ infinityWord) (withSign negative infinity)
  | decimal {sign s : List Char} {negative : Bool} {v : Rat} {x : Float}
    (hsign : IsSign sign negative) (hs : IsDecimal s v) (hx : IsNearest v x) :
    IsLiteral (sign ++ s) (withSign negative x)

/-- A text that is read as a number, and its value. -/
inductive IsNumeral : List Char → Float → Prop
  | empty : IsNumeral [] 0
  | literal {s : List Char} {x : Float} (h : IsLiteral s x) : IsNumeral s x
  | hex {mark : Char} {plus ds : List Char} {x : Float} (hmark : mark = 'x' ∨ mark = 'X')
    (hplus : plus = [] ∨ plus = ['+']) (ne : ds ≠ []) (digits : ∀ c ∈ ds, isHexDigit c = true)
    (hlt : ofDigits 16 ds < hexBound) (hx : IsNearest (ofDigits 16 ds) x) :
    IsNumeral ('0' :: mark :: (plus ++ ds)) x

/-! ## Decimals and words -/

theorem IsDecimal.scanSign_append {sign : List Char} (hs : IsDecimal s v)
    (hsign : IsSign sign negative) (t : List Char) :
    Decimal.scanSign (sign ++ (s ++ t)) = (negative, s ++ t) := by
  obtain ⟨c, r, rfl, hc⟩ := hs.exists_eq_cons
  refine hsign.scanSign_append ?_
  rintro _ ⟨⟩
  rcases hc with hc | rfl
  · exact ne_sign_of_isDigit hc
  · decide

theorem scanSign_infinityWord_append {sign : List Char} (hsign : IsSign sign negative)
    (t : List Char) :
    Decimal.scanSign (sign ++ (infinityWord ++ t)) = (negative, infinityWord ++ t) := by
  refine hsign.scanSign_append ?_
  rintro _ ⟨⟩
  decide

theorem IsDecimal.not_infinityWord_prefix (h : IsDecimal s v) (t : List Char) :
    ¬infinityWord <+: s ++ t := by
  obtain ⟨c, r, rfl, hc⟩ := h.exists_eq_cons
  intro hprefix
  obtain ⟨rfl, -⟩ := List.cons_prefix_cons.mp hprefix
  exact absurd hc (by decide)

theorem IsDecimal.dropHexMark_eq (h : IsDecimal s v) : dropHexMark s = none := by
  obtain ⟨d, hscan, -⟩ := h.exists_scan
  unfold dropHexMark
  split
  · cases hscan
  · cases hscan
  · rfl

theorem dropHexMark_eq_some_iff :
    dropHexMark s = some hex ↔ ∃ mark, (mark = 'x' ∨ mark = 'X') ∧ s = '0' :: mark :: hex := by
  unfold dropHexMark
  split
  · simp
  · simp
  · rename_i hx hX
    refine iff_of_false nofun ?_
    rintro ⟨mark, rfl | rfl, rfl⟩
    · exact hx _ rfl
    · exact hX _ rfl

/-! ## Reading hexadecimal -/

theorem ofHex_plus_append {plus ds : List Char} (hplus : plus = [] ∨ plus = ['+']) (ne : ds ≠ [])
    (digits : ∀ c ∈ ds, isHexDigit c = true) (hlt : ofDigits 16 ds < hexBound) :
    ofHex (plus ++ ds) = ofNat (ofDigits 16 ds) := by
  have hdrop : dropPlus (plus ++ ds) = ds := by
    rcases hplus with rfl | rfl
    · obtain ⟨c, ds, rfl⟩ := List.exists_cons_of_ne_nil ne
      have hc := digits c List.mem_cons_self
      rw [List.nil_append]
      unfold dropPlus
      split
      · rename_i heq
        cases heq
        exact absurd hc (by decide)
      · rfl
    · rfl
  have hdigits : ¬(ds.isEmpty || !ds.all isHexDigit) = true := by
    simpa [ne] using digits
  rw [ofHex, hdrop, if_neg hdigits]
  exact if_pos hlt

private theorem exists_plus_append (s : List Char) :
    ∃ plus, (plus = [] ∨ plus = ['+']) ∧ s = plus ++ dropPlus s := by
  unfold dropPlus
  split
  · exact ⟨['+'], .inr rfl, rfl⟩
  · exact ⟨[], .inl rfl, rfl⟩

/-! ## Reading whole texts

Each case of a numeral is read as its value, and a text that is not read as not a number is in one
of these cases. -/

theorem IsLiteral.ofTrimmed_eq (h : IsLiteral s x) : ofTrimmed s = x := by
  cases h with
  | word hsign =>
    have hscan := scanSign_infinityWord_append hsign []
    rw [List.append_nil] at hscan
    rw [ofTrimmed, if_neg (by simp [infinityWord]), hscan]
    exact if_pos rfl
  | @decimal sign s _ _ _ hsign hs hx =>
    obtain ⟨d, hread, rfl⟩ := hs.exists_scan
    have hscan := hs.scanSign_append hsign []
    have hword := hs.not_infinityWord_prefix []
    rw [List.append_nil] at hscan hword
    have hne : ¬(sign ++ s).isEmpty = true := by
      obtain ⟨c, r, rfl, -⟩ := hs.exists_eq_cons
      simp
    rw [ofTrimmed, if_neg hne, hscan]
    dsimp only
    rw [if_neg (by rintro rfl; exact hword List.prefix_rfl), hs.dropHexMark_eq]
    dsimp only
    rw [hread]
    dsimp only
    rw [hx.unique d.isNearest_toFloat]

theorem IsNumeral.ofTrimmed_eq (h : IsNumeral s x) : ofTrimmed s = x := by
  cases h with
  | empty => rfl
  | literal h => exact h.ofTrimmed_eq
  | @hex mark plus ds _ hmark hplus ne digits hlt hx =>
    have hdrop : dropHexMark ('0' :: mark :: (plus ++ ds)) = some (plus ++ ds) :=
      dropHexMark_eq_some_iff.mpr ⟨mark, hmark, rfl⟩
    rw [ofTrimmed, if_neg (by simp), scanSign_of_isDigit (by rfl)]
    dsimp only
    rw [if_neg (by simp [infinityWord]), hdrop]
    dsimp only
    rw [if_neg (lt_irrefl _), ofHex_plus_append hplus ne digits hlt]
    exact (isNearest_ofNat _).unique hx

/-- A hexadecimal text that is not read as not a number is a numeral. -/
theorem isNumeral_or_ofHex_eq_nan {mark : Char} (hmark : mark = 'x' ∨ mark = 'X') (s : List Char) :
    IsNumeral ('0' :: mark :: s) (ofHex s) ∨ ofHex s = nan := by
  obtain ⟨plus, hplus, hs⟩ := exists_plus_append s
  by_cases hdigits : dropPlus s ≠ [] ∧ ∀ c ∈ dropPlus s, isHexDigit c = true
  · obtain ⟨ne, digits⟩ := hdigits
    by_cases hlt : ofDigits 16 (dropPlus s) < hexBound
    · have hvalue := ofHex_plus_append hplus ne digits hlt
      rw [← hs] at hvalue
      have hnumeral := IsNumeral.hex hmark hplus ne digits hlt (isNearest_ofNat _)
      rw [← hs] at hnumeral
      exact .inl (hvalue ▸ hnumeral)
    · refine .inr ?_
      rw [ofHex]
      dsimp only
      rw [if_neg hlt, ite_self]
  · refine .inr (if_pos ?_)
    rw [← Bool.not_eq_false, Bool.or_eq_false_iff]
    simpa using hdigits

/-- What is not read as not a number is a numeral. -/
theorem isNumeral_or_ofTrimmed_eq_nan (s : List Char) :
    IsNumeral s (ofTrimmed s) ∨ ofTrimmed s = nan := by
  by_cases hempty : s = []
  · subst hempty
    exact .inl .empty
  obtain ⟨sign, hsign, hs⟩ := exists_isSign s
  rcases hscan : Decimal.scanSign s with ⟨negative, t⟩
  rw [hscan] at hsign hs
  dsimp only at hsign hs
  subst hs
  rw [ofTrimmed, if_neg (by simpa using hempty), hscan]
  dsimp only
  by_cases hword : t = infinityWord
  · subst hword
    rw [if_pos rfl]
    exact .inl (.literal (.word hsign))
  rw [if_neg hword]
  rcases hhex : dropHexMark t with _ | hex
  · dsimp only
    split
    · rename_i d hread
      exact .inl (.literal (.decimal hsign (isDecimal_iff_exists_scan.mpr ⟨d, hread, rfl⟩)
        d.isNearest_toFloat))
    · exact .inr rfl
  · dsimp only
    by_cases hsigned : t.length < (sign ++ t).length
    · exact .inr (if_pos hsigned)
    · obtain rfl : sign = [] := by simpa using hsigned
      obtain ⟨mark, hmark, rfl⟩ := dropHexMark_eq_some_iff.mp hhex
      rw [if_neg hsigned]
      exact isNumeral_or_ofHex_eq_nan hmark hex

/-! ## Reading by a filter -/

def wordValue? (s : List Char) : Option Float :=
  if Text.lowerAscii s ∈ [['i', 'n', 'f'], Text.lowerAscii infinityWord] then some infinity
  else if Text.lowerAscii s = ['n', 'a', 'n'] then some nan
  else none

/-- The value of a decimal or a word with an optional sign; other texts are refused. -/
def generalValue? (s : List Char) : Option Float :=
  let (negative, t) := Decimal.scanSign s
  match wordValue? t with
  | some x => some (withSign negative x)
  | none =>
    match Decimal.scan t with
    | some (d, []) => some (withSign negative d.toFloat)
    | _ => none

def isSignChar (c : Char) : Bool := c == '+' || c == '-'

def isDecimalChar (c : Char) : Bool :=
  c.isDigit || c == '.' || c == 'e' || c == 'E' || c == '+' || c == '-'

/-- The value of a decimal, which a general reader is asked for after a look at the bytes. -/
def decimalByFilter (negative : Bool) (s : List Char) : Float :=
  let bytes := Text.utf8 s
  if s.head?.any isSignChar then nan
  else if !bytes.all (Text.byteIn isDecimalChar) || !bytes.any (Text.byteIn Char.isDigit) then nan
  else ((generalValue? s).map (withSign negative)).getD nan

/-- The value of a whole text without blanks at its ends, with a filter in front of a general
reader. -/
def ofTrimmedByFilter (s : List Char) : Float :=
  if s.isEmpty then 0
  else
    let (negative, unsigned) := Decimal.scanSign s
    if unsigned = infinityWord then withSign negative infinity
    else
      match dropHexMark unsigned with
      | some hex => if unsigned.length < s.length then nan else ofHex hex
      | none => decimalByFilter negative unsigned

theorem isAsciiClass_isSignChar : Text.IsAsciiClass isSignChar :=
  (Text.isAsciiClass_beq (by decide)).or (Text.isAsciiClass_beq (by decide))

theorem isAsciiClass_isDecimalChar : Text.IsAsciiClass isDecimalChar := by
  refine ((((Text.isAsciiClass_isDigit.or ?_).or ?_).or ?_).or ?_).or ?_ <;>
    exact Text.isAsciiClass_beq (by decide)

theorem isDecimalChar_of_isDigit {c : Char} (hc : c.isDigit = true) : isDecimalChar c = true := by
  simp [isDecimalChar, hc]

private theorem toLower_ne_of_isDecimalChar {c : Char} (hc : isDecimalChar c = true) :
    c.toLower ≠ 'i' ∧ c.toLower ≠ 'n' := by
  simp only [isDecimalChar, Bool.or_eq_true, beq_iff_eq] at hc
  rcases hc with ((((hc | rfl) | rfl) | rfl) | rfl) | rfl
  · have hbounds := Text.isDigit_iff.mp hc
    have hupper : c.isUpper = false := by
      rw [← Bool.not_eq_true, Text.isUpper_iff]
      omega
    rw [Text.toLower_of_not_isUpper hupper]
    constructor <;> (rintro rfl; exact absurd hc (by decide))
  all_goals decide

theorem wordValue?_of_isDecimalChar (hs : ∀ c ∈ s, isDecimalChar c = true) :
    wordValue? s = none := by
  have hhead {w : List Char} {a : Char} (hw : Text.lowerAscii s = a :: w) : a ≠ 'i' ∧ a ≠ 'n' := by
    obtain ⟨c, r, rfl, rfl, -⟩ := List.map_eq_cons_iff.mp hw
    exact toLower_ne_of_isDecimalChar (hs c List.mem_cons_self)
  rw [wordValue?, if_neg, if_neg]
  · exact fun h ↦ (hhead h).2 rfl
  · intro h
    rw [List.mem_pair] at h
    rcases h with h | h <;> exact (hhead h).1 rfl

theorem scanSign_of_head (hs : s.head?.any isSignChar = false) :
    Decimal.scanSign s = (false, s) := by
  refine IsSign.none.scanSign_append fun c hc ↦ ?_
  rw [Option.mem_def.mp hc, Option.any_some] at hs
  simpa [isSignChar, and_comm] using hs

/-- A general reader takes the characters of decimals for a decimal only. -/
theorem generalValue?_of_isDecimalChar (hsign : s.head?.any isSignChar = false)
    (hs : ∀ c ∈ s, isDecimalChar c = true) :
    generalValue? s =
      match Decimal.scan s with
      | some (d, []) => some d.toFloat
      | _ => none := by
  rw [generalValue?, scanSign_of_head hsign]
  dsimp only
  rw [wordValue?_of_isDecimalChar hs]
  dsimp only
  split <;> rfl

/-! ### The characters of a decimal -/

theorem IsSign.isDecimalChar_of_mem (h : IsSign s negative) : ∀ c ∈ s, isDecimalChar c = true := by
  cases h <;> simp [isDecimalChar]

theorem IsMantissa.isDecimalChar_of_mem (h : IsMantissa s v) :
    ∀ c ∈ s, isDecimalChar c = true := by
  cases h with
  | whole _ digits => exact fun c hc ↦ isDecimalChar_of_isDigit (digits c hc)
  | point _ digits digits' =>
    intro c hc
    rw [List.mem_append, List.mem_cons] at hc
    rcases hc with hc | rfl | hc
    · exact isDecimalChar_of_isDigit (digits c hc)
    · rfl
    · exact isDecimalChar_of_isDigit (digits' c hc)

theorem IsExponent.isDecimalChar_of_mem {e : Int} (h : IsExponent s e) :
    ∀ c ∈ s, isDecimalChar c = true := by
  cases h with
  | none => nofun
  | marked hmark hsign _ digits =>
    intro c hc
    rw [List.mem_cons, List.mem_append] at hc
    rcases hc with rfl | hc | hc
    · rcases hmark with rfl | rfl <;> rfl
    · exact hsign.isDecimalChar_of_mem c hc
    · exact isDecimalChar_of_isDigit (digits c hc)

theorem IsDecimal.isDecimalChar_of_mem (h : IsDecimal s v) : ∀ c ∈ s, isDecimalChar c = true := by
  obtain ⟨hs, ht⟩ := h
  exact List.forall_mem_append.mpr ⟨hs.isDecimalChar_of_mem, ht.isDecimalChar_of_mem⟩

theorem IsDecimal.exists_isDigit (h : IsDecimal s v) : ∃ c ∈ s, c.isDigit = true := by
  obtain ⟨hs, -⟩ := h
  cases hs with
  | whole ne digits =>
    obtain ⟨c, ds, rfl⟩ := List.exists_cons_of_ne_nil ne
    exact ⟨c, by simp, digits c List.mem_cons_self⟩
  | @point ds fs ne digits digits' =>
    rcases ne with ne | ne
    · obtain ⟨c, ds, rfl⟩ := List.exists_cons_of_ne_nil ne
      exact ⟨c, by simp, digits c List.mem_cons_self⟩
    · obtain ⟨c, fs, rfl⟩ := List.exists_cons_of_ne_nil ne
      exact ⟨c, by simp, digits' c List.mem_cons_self⟩

theorem IsDecimal.head_not_sign (h : IsDecimal s v) : s.head?.any isSignChar = false := by
  obtain ⟨c, r, rfl, hc⟩ := h.exists_eq_cons
  rcases hc with hc | rfl
  · simpa [isSignChar, and_comm] using ne_sign_of_isDigit hc
  · rfl

theorem generalValue?_of_isDecimal {sign : List Char} (hsign : IsSign sign negative)
    (hs : IsDecimal s v) (hx : IsNearest v x) :
    generalValue? (sign ++ s) = some (withSign negative x) := by
  obtain ⟨d, hread, rfl⟩ := hs.exists_scan
  have hscan := hs.scanSign_append hsign []
  rw [List.append_nil] at hscan
  rw [generalValue?, hscan]
  dsimp only
  rw [wordValue?_of_isDecimalChar hs.isDecimalChar_of_mem, hread]
  dsimp only
  rw [hx.unique d.isNearest_toFloat]

/-- **The filter admits every decimal**, and of what it admits the reader takes nothing else. -/
theorem decimalByFilter_eq (negative : Bool) (s : List Char) :
    decimalByFilter negative s =
      match Decimal.scan s with
      | some (d, []) => withSign negative d.toFloat
      | _ => nan := by
  rw [decimalByFilter, Text.all_utf8 isAsciiClass_isDecimalChar,
    Text.any_utf8 Text.isAsciiClass_isDigit]
  have hnone (h : ∀ v, ¬IsDecimal s v) :
      (match Decimal.scan s with
        | some (d, []) => withSign negative d.toFloat
        | _ => nan) = nan := by
    split
    · rename_i d hscan
      exact absurd (isDecimal_iff_exists_scan.mpr ⟨d, hscan, rfl⟩) (h _)
    · rfl
  by_cases hsign : s.head?.any isSignChar = true
  · rw [if_pos hsign, hnone]
    intro v hv
    rw [hv.head_not_sign] at hsign
    cases hsign
  rw [if_neg hsign]
  by_cases hchars : (!s.all isDecimalChar || !s.any Char.isDigit) = true
  · rw [if_pos hchars, hnone]
    intro v hv
    rw [List.all_eq_true.mpr hv.isDecimalChar_of_mem, List.any_eq_true.mpr hv.exists_isDigit]
      at hchars
    cases hchars
  · obtain ⟨hall, -⟩ : (∀ c ∈ s, isDecimalChar c = true) ∧ _ := by simpa using hchars
    rw [if_neg hchars, generalValue?_of_isDecimalChar (Bool.not_eq_true _ ▸ hsign) hall]
    split <;> rfl

theorem ofTrimmedByFilter_eq (s : List Char) : ofTrimmedByFilter s = ofTrimmed s := by
  simp only [ofTrimmedByFilter, decimalByFilter_eq]
  rfl

/-! ## Texts -/

/-- **A text is read as a number exactly if it is one**, blanks around it apart. A filter in front
of a general reader comes to the same. -/
theorem ofText_reads_numerals (s : String) :
    (∀ x, ofText s = x ↔ IsNumeral (Text.trim s.toList) x ∨
      x = nan ∧ ∀ y, ¬IsNumeral (Text.trim s.toList) y) ∧
    ofTrimmedByFilter (Text.trim s.toList) = ofText s := by
  refine ⟨fun x ↦ ⟨?_, ?_⟩, ofTrimmedByFilter_eq _⟩
  · rintro rfl
    rcases isNumeral_or_ofTrimmed_eq_nan (Text.trim s.toList) with h | h
    · exact .inl h
    · by_cases hnumeral : ∃ y, IsNumeral (Text.trim s.toList) y
      · obtain ⟨y, hy⟩ := hnumeral
        rw [ofText, hy.ofTrimmed_eq]
        exact .inl hy
      · exact .inr ⟨h, not_exists.mp hnumeral⟩
  · rintro (h | ⟨rfl, h⟩)
    · exact h.ofTrimmed_eq
    · exact (isNumeral_or_ofTrimmed_eq_nan _).resolve_left (h _)

end HtmlTemplate.Number

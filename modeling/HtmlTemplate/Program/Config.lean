import HtmlTemplate.Files.Directory
import HtmlTemplate.Json.Members
import HtmlTemplate.Program.Arguments
import HtmlTemplate.Template.Options
import HtmlTemplate.Text.Blank

/-!
# Configuration

The options of a run come from the command line, from a configuration file, and from their defaults,
in this order and each on its own. The file is the one that the command line names, or the first one
that is found in the directory of the template and the ancestors of that directory; the ancestors
are those of the path as it is written.
-/

namespace HtmlTemplate

/-- What one source says about the options. -/
structure SomeOptions where
  bindSymbol : Option String := none
  priority : Option (List String) := none
deriving DecidableEq

namespace SomeOptions

/-- Two sources, of which the first counts where it says anything. -/
def orElse (a b : SomeOptions) : SomeOptions where
  bindSymbol := a.bindSymbol.or b.bindSymbol
  priority := a.priority.or b.priority

/-- The options, with defaults for what is not said. -/
def complete (s : SomeOptions) : Options where
  bindSymbol := s.bindSymbol.getD ({} : Options).bindSymbol
  priority := s.priority.getD ({} : Options).priority

/-- The text of a document that is one. -/
def string? : Json → Option String
  | .string s => some s
  | _ => none

/-- The texts of a document that is an array of them. -/
def strings? : Json → Option (List String)
  | .array items => items.mapM string?
  | _ => none

/-- Reads a member of a configuration. A name that is known may occur once. -/
def addMember (s : SomeOptions) (m : Json.RawMember) : Option SomeOptions :=
  let value := Json.parse? (String.ofList m.raw)
  if m.name = "bindSymbol" then
    if s.bindSymbol.isSome then none
    else (value.bind string?).map fun t ↦ { s with bindSymbol := t }
  else if m.name = "priority" then
    if s.priority.isSome then none
    else (value.bind strings?).map fun ts ↦ { s with priority := ts }
  else some s

/-- The options of an array: the bind symbol, and then the priority. -/
def ofArray? : Json → Option SomeOptions
  | .array [] => some {}
  | .array [b] => (string? b).map fun s ↦ { bindSymbol := s }
  | .array [b, p] => do
    let s ← string? b
    let ts ← strings? p
    some { bindSymbol := s, priority := ts }
  | _ => none

/-- The options of a configuration file: an object or an array. -/
def ofText? (text : String) : Option SomeOptions :=
  match Json.dropSpace text.toList with
  | '{' :: _ => do
    let members ← Json.membersOf? text
    members.foldlM addMember {}
  | _ => (Json.parse? text).bind ofArray?

/-- What the command line says. -/
def ofArguments (a : Arguments) : SomeOptions where
  bindSymbol := a.bind
  priority := if a.priority.isEmpty then none else some (a.priority.map Text.trimmed)

end SomeOptions

/-- The configuration of a run: the file that was read, if any, and the options. -/
structure Config where
  path : Option String
  options : Options
deriving DecidableEq

/-- Why there is no configuration. -/
inductive ConfigError where
  | unreadable (path : String)
  | invalid (path : String)
  | emptyBindSymbol
deriving DecidableEq

/-- The wording of an error. -/
def ConfigError.message : ConfigError → String
  | unreadable path => "Failed to read " ++ path
  | invalid path => "Failed to parse " ++ path
  | emptyBindSymbol => "The bind symbol must not be empty"

namespace Config

/-- The name of a configuration file. -/
def fileName : String := "weave.json"

/-- Where a configuration file is looked for, given the directory of a template. -/
def candidates (directory : String) : List String :=
  (Path.ofText directory).ancestors.map fun p ↦ (p.child fileName).text

/-- The configuration file of the directory of a template. -/
def find? (files : String → Option File) (directory : String) : Option String :=
  (candidates directory).find? fun path ↦ (files path).isSome

/-- What a configuration file says. -/
def readFile (files : String → Option File) (path : String) : Except ConfigError SomeOptions :=
  match (files path).bind File.text? with
  | none => .error (.unreadable path)
  | some text =>
    match SomeOptions.ofText? text with
    | none => .error (.invalid path)
    | some s => .ok s

/-- The file that the configuration is read from. -/
def path? (files : String → Option File) (a : Arguments) : Option String :=
  a.config.or (find? files a.templateDirectory)

/-- The configuration of a run. -/
def load (files : String → Option File) (a : Arguments) : Except ConfigError Config := do
  let path := path? files a
  let said ← match path with
    | none => .ok {}
    | some path => readFile files path
  let options := ((SomeOptions.ofArguments a).orElse said).complete
  if options.bindSymbol.isEmpty then .error .emptyBindSymbol
  else .ok ⟨path, options⟩

end Config

end HtmlTemplate

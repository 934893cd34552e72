import HtmlTemplate.Files.Path

/-!
# Command-line arguments

A template and options, in any order. An option that takes a value has it attached or as the next
argument, which may begin with a dash only if it is nothing else. Switches of one letter can be
joined. Behind two dashes every argument is a template. What is given once cannot be given again,
except for the names of priority directives.

Arguments are read from the left, so that a request for help counts unless something before it is
wrong.
-/

namespace HtmlTemplate

/-- The options that take a value. -/
inductive Setting where
  | data | config | bind | priority | output
deriving DecidableEq

/-- The options without a value. -/
inductive Switch where
  | pretty | verbose | help | version
deriving DecidableEq

/-- What an option is. -/
inductive OptionKey where
  | setting (s : Setting)
  | switch (s : Switch)

namespace OptionKey

/-- The option of a name behind two dashes. -/
def ofName? : String → Option OptionKey
  | "data" => some (setting .data)
  | "config" => some (setting .config)
  | "bind" => some (setting .bind)
  | "priority" => some (setting .priority)
  | "output" => some (setting .output)
  | "pretty" => some (switch .pretty)
  | "verbose" => some (switch .verbose)
  | "help" => some (switch .help)
  | "version" => some (switch .version)
  | _ => none

/-- The option of a letter behind one dash. -/
def ofLetter? : Char → Option OptionKey
  | 'd' => some (setting .data)
  | 'c' => some (setting .config)
  | 'o' => some (setting .output)
  | 'v' => some (switch .verbose)
  | 'h' => some (switch .help)
  | 'V' => some (switch .version)
  | _ => none

end OptionKey

/-- Why arguments are not accepted. -/
inductive UsageError where
  | unknown (argument : String)
  | noValue (argument : String)
  | unneededValue (argument : String)
  | repeated (argument : String)
  | unexpected (argument : String)
  | noTemplate
deriving DecidableEq

/-- Why arguments do not lead to a run of the program. -/
inductive Refusal where
  | help
  | version
  | usage (e : UsageError)
deriving DecidableEq

/-- The options that are given. -/
structure Given where
  data : Option String := none
  config : Option String := none
  bind : Option String := none
  priority : List String := []
  pretty : Bool := false
  output : Option String := none
  verbose : Bool := false
deriving DecidableEq

/-- The arguments of a run. -/
structure Arguments extends Given where
  template : String
deriving DecidableEq

namespace Arguments

/-- Gives a value to an option that has none. -/
def once (argument value : String) : Option String → Except Refusal (Option String)
  | none => .ok (some value)
  | some _ => .error (.usage (.repeated argument))

/-- Gives a value to an option, which stands in the argument. -/
def setting (g : Given) (argument value : String) : Setting → Except Refusal Given
  | .data => (once argument value g.data).map fun v ↦ { g with data := v }
  | .config => (once argument value g.config).map fun v ↦ { g with config := v }
  | .bind => (once argument value g.bind).map fun v ↦ { g with bind := v }
  | .output => (once argument value g.output).map fun v ↦ { g with output := v }
  | .priority =>
    let names := (Text.pieces [','] (by simp) value.toList).map String.ofList
    .ok { g with priority := g.priority ++ names }

/-- Turns an option on, which stands in the argument. -/
def switch (g : Given) (argument : String) : Switch → Except Refusal Given
  | .help => .error .help
  | .version => .error .version
  | .pretty =>
    if g.pretty then .error (.usage (.repeated argument)) else .ok { g with pretty := true }
  | .verbose =>
    if g.verbose then .error (.usage (.repeated argument)) else .ok { g with verbose := true }

/-- The forms of an argument. -/
inductive Form where
  /-- Two dashes alone. -/
  | dashes
  /-- Two dashes and a name, with or without a value behind an equals sign. -/
  | named (name : String) (value : Option String)
  /-- A dash and letters. -/
  | letters (cs : List Char)
  /-- Anything else; a dash alone included. -/
  | word
deriving DecidableEq

/-- The form of an argument. -/
def formOf (argument : String) : Form :=
  match argument.toList with
  | ['-', '-'] => .dashes
  | '-' :: '-' :: cs =>
    match Text.cutAtChar (· == '=') cs with
    | none => .named (String.ofList cs) none
    | some (name, value) => .named (String.ofList name) (some (String.ofList value))
  | '-' :: c :: cs => .letters (c :: cs)
  | _ => .word

/-- The value behind the letter of an option, with or without an equals sign. -/
def attached : List Char → Option String
  | [] => none
  | '=' :: cs => some (String.ofList cs)
  | cs => some (String.ofList cs)

/-- Options that are given, and an option that still needs its value. -/
abbrev Pending := Given × Option Setting

/-- Gives a value to an option, if it stands there. -/
def settle (g : Given) (argument : String) (s : Setting) :
    Option String → Except Refusal Pending
  | some value => (setting g argument value s).map (·, none)
  | none => .ok (g, some s)

/-- Reads the letters behind a dash. -/
def readLetters (g : Given) (argument : String) : List Char → Except Refusal Pending
  | [] => .ok (g, none)
  | c :: cs =>
    match OptionKey.ofLetter? c with
    | none => .error (.usage (.unknown argument))
    | some (.setting s) => settle g argument s (attached cs)
    | some (.switch s) => do
      let g ← switch g argument s
      readLetters g argument cs

/-- Reads a name behind two dashes, with the value that may be attached to it. -/
def readNamed (g : Given) (argument name : String) (value : Option String) :
    Except Refusal Pending :=
  match OptionKey.ofName? name with
  | none => .error (.usage (.unknown argument))
  | some (.setting s) => settle g argument s value
  | some (.switch s) =>
    if value.isSome then .error (.usage (.unneededValue argument))
    else (switch g argument s).map (·, none)

/-- Takes an argument as the template. -/
def takeTemplate (argument : String) : Option String → Except Refusal (Option String)
  | none => .ok (some argument)
  | some _ => .error (.usage (.unexpected argument))

/-- Reads arguments, given what has been read before them. -/
def read (template : Option String) (g : Given) :
    List String → Except Refusal (Option String × Given)
  | [] => .ok (template, g)
  | argument :: rest =>
    let withPending (r : Except Refusal Pending) : Except Refusal (Option String × Given) := do
      let (g, pending) ← r
      match pending with
      | none => read template g rest
      | some s =>
        match rest with
        | [] => .error (.usage (.noValue argument))
        | value :: rest =>
          if formOf value = .word then do
            let g ← setting g argument value s
            read template g rest
          else .error (.usage (.noValue argument))
    match formOf argument with
    | .dashes => do
      let template ← rest.foldlM (fun t a ↦ takeTemplate a t) template
      .ok (template, g)
    | .named name value => withPending (readNamed g argument name value)
    | .letters cs => withPending (readLetters g argument cs)
    | .word => do
      let template ← takeTemplate argument template
      read template g rest

/-- Reads all arguments. -/
def parse (arguments : List String) : Except Refusal Arguments := do
  let (template, g) ← read none {} arguments
  match template with
  | none => .error (.usage .noTemplate)
  | some template => .ok { g with template }

/-- The directory of the template. -/
def templateDirectory (a : Arguments) : String :=
  match (Path.ofText a.template).parent? with
  | none => "."
  | some p => if p.text.isEmpty then "." else p.text

end Arguments

end HtmlTemplate

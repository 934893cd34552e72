import HtmlTemplate.Markup.Printer
import HtmlTemplate.Program.Config
import HtmlTemplate.Template.Compile

/-!
# A run of the program

Everything is read before anything is written: from the arguments and the files follows either one
action, to print the view or to save it, or a failure. The files a run can look at follow from its
arguments (`inputs`).

A run on a directory (`Directory.run`) reports an exit status and an output, and leaves the
directory as it was unless a view was saved.

The reports are texts of their own: what is told does not depend on how the program looks for what
it needs, but for the failure that it comes to first.
-/

namespace HtmlTemplate

/-- What a run does in the end. -/
inductive Action where
  | print (view : String)
  | save (path view : String)
deriving DecidableEq

/-- Why a run fails. -/
inductive Failure where
  | config (e : ConfigError)
  | unreadable (path : String)
  | invalidData (path : String)
  | noObject (path : String)
  | compile (template : String) (e : CompileError)
  | unwritable (path : String)

/-- The wording of a failure. -/
def Failure.message : Failure → String
  | config e => e.message
  | unreadable path => "Failed to read " ++ path
  | invalidData path => "Failed to parse " ++ path
  | noObject path => "Data in " ++ path ++ " must be a JSON object"
  | compile template e => "Failed to compile " ++ template ++ ": " ++ e.message
  | unwritable path => "Failed to write " ++ path

def readText (files : String → Option File) (path : String) : Except Failure String :=
  match (files path).bind File.text? with
  | none => .error (.unreadable path)
  | some text => .ok text

/-- The data of a file, which has to be an object. -/
def readData (files : String → Option File) (path : String) : Except Failure Data := do
  let text ← readText files path
  match Json.parse? text with
  | none => .error (.invalidData path)
  | some (.object members) => .ok (Data.ofJson (.object members))
  | some _ => .error (.noObject path)

/-- The view of a run: configuration, template and data are read in this order. -/
def view (files : String → Option File) (a : Arguments) : Except Failure Node := do
  let config ← (Config.load files a).mapError .config
  let template ← readText files a.template
  let data ← match a.data with
    | none => .ok []
    | some path => readData files path
  (compileMarkup config.options data template).mapError (.compile a.template)

/-- What is left to do when everything has been read. -/
def plan (files : String → Option File) (a : Arguments) : Except Failure Action := do
  let view ← view files a
  let text := view.render a.pretty
  match a.output with
  | none => .ok (.print text)
  | some path => .ok (.save path text)

/-- The paths of all files that a run can look at. -/
def inputs (a : Arguments) : List String :=
  a.template :: a.config.toList ++ a.data.toList ++ Config.candidates a.templateDirectory

/-- What a run tells: its exit status, its output, and what it says about an error. -/
structure Report where
  status : Nat
  output : String := ""
  complaint : String := ""
deriving DecidableEq

/-- The text for those who ask for help. -/
def helpText : String := "\n".intercalate [
  "Compile a weave template against JSON data and print the resulting HTML",
  "",
  "Usage: weave [OPTIONS] <TEMPLATE>",
  "",
  "Arguments:",
  "  <TEMPLATE>  Template file to compile",
  "",
  "Options:",
  "  -d, --data <DATA>          JSON file with the data the template is compiled against",
  "  -c, --config <CONFIG>      Path to weave.json (searched next to the template and upwards " ++
    "by default)",
  "      --bind <BIND>          Directive attribute marker, e.g. \x60:\x60 for \x60:show\x60",
  "      --priority <PRIORITY>  Priority directives, highest first",
  "      --pretty               Indent the output",
  "  -o, --output <OUTPUT>      Write the output to a file instead of stdout",
  "  -v, --verbose              Verbose output",
  "  -h, --help                 Print help",
  "  -V, --version              Print version",
  ""]

/-- The wording of an error in the arguments. -/
def UsageError.message : UsageError → String
  | unknown a | unexpected a => "unexpected argument '" ++ a ++ "' found"
  | noValue a => "a value is required for '" ++ a ++ "' but none was supplied"
  | unneededValue a => "unexpected value for '" ++ a ++ "' found"
  | repeated a => "the argument '" ++ a ++ "' cannot be used multiple times"
  | noTemplate => "the required argument <TEMPLATE> was not provided"

/-- The report on arguments that do not lead to a run. -/
def Refusal.report : Refusal → Report
  | help => { status := 0, output := helpText }
  | version => { status := 0, output := "weave 0.1.0\n" }
  | usage e => { status := 2, complaint := "error: " ++ e.message ++ "\n" }

/-- The report on a run that failed. -/
def Failure.report (e : Failure) : Report :=
  { status := 1, complaint := "error: " ++ e.message ++ "\n" }

/-- The report on a view that was printed. -/
def printReport (view : String) : Report := { status := 0, output := view ++ "\n" }

/-- The report on a view that was saved. -/
def saveReport : Report := { status := 0 }

namespace Directory

/-- Does what a run does in the end. -/
def perform (d : Directory) : Action → Report × Directory
  | .print view => (printReport view, d)
  | .save path view =>
    match d.write? path view with
    | none => ((Failure.unwritable path).report, d)
    | some d' => (saveReport, d')

/-- Runs the program on the files of a directory. -/
def run (d : Directory) (arguments : List String) : Report × Directory :=
  match Arguments.parse arguments with
  | .error r => (r.report, d)
  | .ok a =>
    match plan d.file? a with
    | .error e => (e.report, d)
    | .ok action => d.perform action

end Directory

end HtmlTemplate

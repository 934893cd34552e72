import HtmlTemplate.Proofs.Files.Ancestors
import HtmlTemplate.Proofs.Program.Documents
import HtmlTemplate.Proofs.Program.Settings

/-!
# The configuration of a run

The configuration comes from arguments, from a file, and from defaults. Which file it is, what the
file says, what the options come to, and which failure there is otherwise are laid down here without
the order in which the program finds out (`Config.Loads`), and loading gives exactly that
(`Config.load_eq_iff`): each option is taken from the first source that has it, whatever the other
option does, and the bind symbol is checked after that.

## Layout

Each part of the outcome has a relation of its own: which file it is (`IsChosen`), what the file
says (`FileSays`), and what each option comes to (`IsValue`). That these determine the outcome is
shown from the program, which gives one; that there always is one is shown by cases
(`exists_loads`).

## Failures

A file that cannot be read and a file that is no configuration are failures of their own, and they
come before the check of the bind symbol. An empty bind symbol in the file is no failure if the
arguments bring another one.
-/

namespace HtmlTemplate

namespace Config

open Arguments (givenTo)
open SomeOptions (IsDocument)

variable {files : String → Option File} {arguments : List String} {a : Arguments}
  {chosen : Option String} {directory path : String} {said : SomeOptions} {options : Options}

/-! ## The sources -/

/-- The file that is asked for in a directory. -/
def candidate (directory : Path) : String := (directory.child fileName).text

/-- The configuration file of a run: the one that is named, or else the first one on the chain of
parents of the directory of the template, or else none. -/
inductive IsChosen (files : String → Option File) (arguments : List String) (directory : String) :
    Option String → Prop
  | named {path : String} (hgiven : givenTo .config arguments = [path]) :
    IsChosen files arguments directory (some path)
  | found {i : Nat} {p : Path} (hgiven : givenTo .config arguments = [])
    (hclimb : (Path.ofText directory).climb i = some p) (hfile : files (candidate p) ≠ none)
    (hfirst : ∀ j < i, ∀ q, (Path.ofText directory).climb j = some q → files (candidate q) = none) :
    IsChosen files arguments directory (some (candidate p))
  | nowhere (hgiven : givenTo .config arguments = [])
    (hnone : ∀ i q, (Path.ofText directory).climb i = some q → files (candidate q) = none) :
    IsChosen files arguments directory none

/-- What the chosen file says: nothing, if there is none. -/
inductive FileSays (files : String → Option File) : Option String → SomeOptions → Prop
  | nothing : FileSays files none {}
  | document {path text : String} {said : SomeOptions} (hreads : files path = some (.text text))
    (hdocument : IsDocument text said) : FileSays files (some path) said

/-- The value of an option: what the first source has, or else the second, or else the default. -/
inductive IsValue {α : Type} (o₁ o₂ : Option α) (default : α) : α → Prop
  | first {x : α} (h : o₁ = some x) : IsValue o₁ o₂ default x
  | second {x : α} (h₁ : o₁ = none) (h : o₂ = some x) : IsValue o₁ o₂ default x
  | default (h₁ : o₁ = none) (h₂ : o₂ = none) : IsValue o₁ o₂ default default

def givenNames? (arguments : List String) : Option (List String) :=
  match givenTo .priority arguments with
  | [] => none
  | names => some (names.map Text.trimmed)

/-- The options that arguments and a file lead to, each on its own. -/
structure IsMerged (arguments : List String) (said : SomeOptions) (options : Options) : Prop where
  bindSymbol : IsValue (givenTo .bind arguments).head? said.bindSymbol ":" options.bindSymbol
  priority : IsValue (givenNames? arguments) said.priority ["forin", "each"] options.priority

/-- What loading the configuration comes to. -/
inductive Loads (files : String → Option File) (arguments : List String) (directory : String) :
    Except ConfigError Config → Prop
  | ok {chosen : Option String} {said : SomeOptions} {options : Options}
    (hchosen : IsChosen files arguments directory chosen) (hsaid : FileSays files chosen said)
    (hmerged : IsMerged arguments said options) (hmark : options.bindSymbol ≠ "") :
    Loads files arguments directory (.ok ⟨chosen, options⟩)
  | unreadable {path : String} (hchosen : IsChosen files arguments directory (some path))
    (hreads : ∀ text, files path ≠ some (.text text)) :
    Loads files arguments directory (.error (.unreadable path))
  | invalid {path text : String} (hchosen : IsChosen files arguments directory (some path))
    (hreads : files path = some (.text text)) (hdocument : ∀ said, ¬IsDocument text said) :
    Loads files arguments directory (.error (.invalid path))
  | empty {chosen : Option String} {said : SomeOptions} {options : Options}
    (hchosen : IsChosen files arguments directory chosen) (hsaid : FileSays files chosen said)
    (hmerged : IsMerged arguments said options) (hmark : options.bindSymbol = "") :
    Loads files arguments directory (.error .emptyBindSymbol)

/-! ## The file -/

theorem candidates_eq (directory : String) :
    candidates directory = (Path.ofText directory).ancestors.map candidate := rfl

private theorem find?_eq_some_iff : find? files directory = some path ↔
    ∃ i p, (Path.ofText directory).climb i = some p ∧ candidate p = path ∧
      files (candidate p) ≠ none ∧
      ∀ j < i, ∀ q, (Path.ofText directory).climb j = some q → files (candidate q) = none := by
  simp only [← Path.ancestors_getElem?]
  rw [find?, candidates_eq, List.find?_map, Option.map_eq_some_iff]
  constructor
  · rintro ⟨p, hp, rfl⟩
    obtain ⟨hfile, i, hi, rfl, hfirst⟩ := List.find?_eq_some_iff_getElem.mp hp
    refine ⟨i, _, List.getElem?_eq_getElem hi, rfl, Option.isSome_iff_ne_none.mp hfile, ?_⟩
    intro j hj q hq
    obtain ⟨hlt, rfl⟩ := List.getElem?_eq_some_iff.mp hq
    simpa using hfirst j hj
  · rintro ⟨i, p, hp, rfl, hfile, hfirst⟩
    obtain ⟨hi, rfl⟩ := List.getElem?_eq_some_iff.mp hp
    refine ⟨_, List.find?_eq_some_iff_getElem.mpr ⟨?_, i, hi, rfl, ?_⟩, rfl⟩
    · exact Option.isSome_iff_ne_none.mpr hfile
    · intro j hj
      simpa using hfirst j hj _ (List.getElem?_eq_getElem _)

theorem find?_eq_none_iff : find? files directory = none ↔
    ∀ i q, (Path.ofText directory).climb i = some q → files (candidate q) = none := by
  simp only [← Path.ancestors_getElem?]
  rw [find?, candidates_eq, List.find?_map, Option.map_eq_none_iff, List.find?_eq_none]
  constructor
  · intro h i q hq
    simpa using h q (List.mem_of_getElem? hq)
  · intro h q hq
    obtain ⟨i, hi⟩ := List.mem_iff_getElem?.mp hq
    simpa using h i q hi

theorem isChosen_iff (h : Arguments.parse arguments = .ok a) :
    IsChosen files arguments a.templateDirectory chosen ↔ path? files a = chosen := by
  have hconfig : a.config.toList = givenTo .config arguments := Arguments.values_of_parse h .config
  rw [path?]
  cases hc : a.config with
  | some path =>
    rw [hc] at hconfig
    constructor
    · rintro (hgiven | ⟨hgiven, -, -, -⟩ | ⟨hgiven, -⟩)
      · cases hconfig.trans hgiven
        rfl
      · cases hconfig.trans hgiven
      · cases hconfig.trans hgiven
    · rintro rfl
      exact .named hconfig.symm
  | none =>
    rw [hc] at hconfig
    rw [Option.none_or]
    constructor
    · rintro (hgiven | ⟨hgiven, hclimb, hfile, hfirst⟩ | ⟨hgiven, hnone⟩)
      · cases hconfig.trans hgiven
      · exact find?_eq_some_iff.mpr ⟨_, _, hclimb, rfl, hfile, hfirst⟩
      · exact find?_eq_none_iff.mpr hnone
    · rintro rfl
      cases hfind : find? files a.templateDirectory with
      | none => exact .nowhere hconfig.symm (find?_eq_none_iff.mp hfind)
      | some path =>
        obtain ⟨i, p, hclimb, rfl, hfile, hfirst⟩ := find?_eq_some_iff.mp hfind
        exact .found hconfig.symm hclimb hfile hfirst

theorem readFile_of_text {text : String} (h : files path = some (.text text)) :
    readFile files path = match SomeOptions.ofText? text with
      | none => .error (.invalid path)
      | some s => .ok s := by
  rw [readFile, h]
  rfl

theorem readFile_of_not_text (h : ∀ text, files path ≠ some (.text text)) :
    readFile files path = .error (.unreadable path) := by
  rw [readFile]
  cases hfile : files path with
  | none => rfl
  | some f =>
    cases f with
    | text text => exact absurd hfile (h text)
    | binary => rfl

theorem readFile_of_document {text : String} (h : files path = some (.text text))
    (hdocument : IsDocument text said) : readFile files path = .ok said := by
  rw [readFile_of_text h, SomeOptions.ofText?_eq_some_iff.mpr hdocument]

theorem readFile_of_not_document {text : String} (h : files path = some (.text text))
    (hdocument : ∀ said, ¬IsDocument text said) : readFile files path = .error (.invalid path) := by
  rw [readFile_of_text h]
  cases hsaid : SomeOptions.ofText? text with
  | none => rfl
  | some said => exact absurd (SomeOptions.ofText?_eq_some_iff.mp hsaid) (hdocument said)

/-! ## The options -/

theorem isValue_iff {α : Type} {o₁ o₂ : Option α} {d x : α} :
    IsValue o₁ o₂ d x ↔ (o₁.or o₂).getD d = x := by
  constructor
  · rintro (rfl | ⟨rfl, rfl⟩ | ⟨rfl, rfl⟩) <;> rfl
  · rintro rfl
    cases o₁ with
    | some x => exact .first rfl
    | none =>
      cases o₂ with
      | some x => exact .second rfl rfl
      | none => exact .default rfl rfl

theorem isMerged_iff (h : Arguments.parse arguments = .ok a) : IsMerged arguments said options ↔
    ((SomeOptions.ofArguments a).orElse said).complete = options := by
  have hbind : (givenTo .bind arguments).head? = (SomeOptions.ofArguments a).bindSymbol := by
    rw [← Arguments.values_of_parse h .bind, SomeOptions.ofArguments]
    cases hb : a.bind <;> simp [Given.values, hb]
  have hpriority : givenNames? arguments = (SomeOptions.ofArguments a).priority := by
    rw [givenNames?, ← Arguments.values_of_parse h .priority, SomeOptions.ofArguments]
    cases hp : a.priority <;> simp [Given.values, hp]
  obtain ⟨b, names⟩ := options
  rw [SomeOptions.complete, SomeOptions.orElse, Options.mk.injEq, ← hbind, ← hpriority]
  constructor
  · rintro ⟨hb, hp⟩
    exact ⟨isValue_iff.mp hb, isValue_iff.mp hp⟩
  · rintro ⟨hb, hp⟩
    exact ⟨isValue_iff.mpr hb, isValue_iff.mpr hp⟩

/-! ## Loading -/

theorem load_of_readFile {path : String} {e : ConfigError} (hchosen : path? files a = some path)
    (h : readFile files path = .error e) : load files a = .error e := by
  rw [load, hchosen]
  simp only [h]
  rfl

theorem load_of_fileSays (hchosen : path? files a = chosen) (hsaid : FileSays files chosen said)
    (hmerged : ((SomeOptions.ofArguments a).orElse said).complete = options) :
    load files a =
      if options.bindSymbol = "" then .error .emptyBindSymbol else .ok ⟨chosen, options⟩ := by
  rw [load, hchosen]
  simp only [← String.isEmpty_iff]
  cases hsaid with
  | nothing =>
    subst hmerged
    rfl
  | document hreads hdocument =>
    simp only [readFile_of_document hreads hdocument]
    subst hmerged
    rfl

theorem fileSays_cases (files : String → Option File) (chosen : Option String) :
    (∃ said, FileSays files chosen said) ∨ ∃ path, chosen = some path ∧
      ((∀ text, files path ≠ some (.text text)) ∨
        ∃ text, files path = some (.text text) ∧ ∀ said, ¬IsDocument text said) := by
  cases chosen with
  | none => exact .inl ⟨{}, .nothing⟩
  | some path =>
    by_cases hreads : ∃ text, files path = some (.text text)
    · obtain ⟨text, hreads⟩ := hreads
      by_cases hdocument : ∃ said, IsDocument text said
      · obtain ⟨said, hdocument⟩ := hdocument
        exact .inl ⟨said, .document hreads hdocument⟩
      · exact .inr ⟨path, rfl, .inr ⟨text, hreads, not_exists.mp hdocument⟩⟩
    · exact .inr ⟨path, rfl, .inl (not_exists.mp hreads)⟩

theorem exists_loads (h : Arguments.parse arguments = .ok a) (files : String → Option File) :
    ∃ r, Loads files arguments a.templateDirectory r := by
  have hchosen : IsChosen files arguments a.templateDirectory (path? files a) :=
    (isChosen_iff h).mpr rfl
  obtain ⟨said, hsaid⟩ | ⟨path, hpath, hreads | ⟨text, hreads, hdocument⟩⟩ :=
    fileSays_cases files (path? files a)
  · have hmerged : IsMerged arguments said _ := (isMerged_iff h).mpr rfl
    by_cases hmark : ((SomeOptions.ofArguments a).orElse said).complete.bindSymbol = ""
    · exact ⟨_, .empty hchosen hsaid hmerged hmark⟩
    · exact ⟨_, .ok hchosen hsaid hmerged hmark⟩
  · exact ⟨_, .unreadable (hpath ▸ hchosen) hreads⟩
  · exact ⟨_, .invalid (hpath ▸ hchosen) hreads hdocument⟩

theorem Loads.load_eq {r : Except ConfigError Config} (h : Arguments.parse arguments = .ok a)
    (hloads : Loads files arguments a.templateDirectory r) : load files a = r := by
  cases hloads with
  | ok hchosen hsaid hmerged hmark =>
    rw [load_of_fileSays ((isChosen_iff h).mp hchosen) hsaid ((isMerged_iff h).mp hmerged),
      if_neg hmark]
  | unreadable hchosen hreads =>
    exact load_of_readFile ((isChosen_iff h).mp hchosen) (readFile_of_not_text hreads)
  | invalid hchosen hreads hdocument =>
    exact load_of_readFile ((isChosen_iff h).mp hchosen) (readFile_of_not_document hreads hdocument)
  | empty hchosen hsaid hmerged hmark =>
    rw [load_of_fileSays ((isChosen_iff h).mp hchosen) hsaid ((isMerged_iff h).mp hmerged),
      if_pos hmark]

/-- A bind symbol among the arguments counts whatever the file has. -/
theorem IsMerged.bindSymbol_eq {symbol : String} (h : IsMerged arguments said options)
    (hgiven : givenTo .bind arguments = [symbol]) : options.bindSymbol = symbol := by
  have hvalue := h.bindSymbol
  rw [hgiven, List.head?_cons, isValue_iff] at hvalue
  exact hvalue.symm

/-- **Loading merges arguments, the chosen file and defaults**, and fails if the file cannot be read
or is no configuration, or if the bind symbol that results is empty. A bind symbol among the
arguments that is not empty makes up for an empty one in the file. -/
theorem load_eq_iff (files : String → Option File) (h : Arguments.parse arguments = .ok a) :
    (∃! chosen, IsChosen files arguments a.templateDirectory chosen) ∧
      (∀ r, load files a = r ↔ Loads files arguments a.templateDirectory r) ∧
      ∀ chosen said symbol, IsChosen files arguments a.templateDirectory chosen →
        FileSays files chosen said → givenTo .bind arguments = [symbol] → symbol ≠ "" →
        ∃ options, load files a = .ok ⟨chosen, options⟩ ∧ options.bindSymbol = symbol := by
  refine ⟨⟨path? files a, (isChosen_iff h).mpr rfl,
    fun _ hchosen ↦ ((isChosen_iff h).mp hchosen).symm⟩, fun r ↦ ⟨?_, Loads.load_eq h⟩, ?_⟩
  · rintro rfl
    obtain ⟨r, hloads⟩ := exists_loads h files
    rwa [hloads.load_eq h]
  · intro chosen said symbol hchosen hsaid hgiven hsymbol
    have hmerged : IsMerged arguments said _ := (isMerged_iff h).mpr rfl
    have heq := hmerged.bindSymbol_eq hgiven
    exact ⟨_, (Loads.ok hchosen hsaid hmerged (heq ▸ hsymbol)).load_eq h, heq⟩

/-- The file is found in the directory of the template, and its bind symbol is empty. -/
theorem load_eq_iff_repaired :
    let files : String → Option File := fun path ↦
      if path = "views/weave.json" then some (.text "[\"\"]") else none
    let arguments := ["views/page.html", "--bind", "@"]
    let a : Arguments := { template := "views/page.html", bind := "@" }
    Arguments.parse arguments = .ok a ∧
      IsChosen files arguments a.templateDirectory (some "views/weave.json") ∧
      FileSays files (some "views/weave.json") { bindSymbol := "" } ∧
      givenTo .bind arguments = ["@"] ∧ "@" ≠ "" ∧
      ∃ options, load files a = .ok ⟨some "views/weave.json", options⟩ ∧
        options.bindSymbol = "@" := by
  intro files arguments a
  have hparse : Arguments.parse arguments = .ok a := by decide +kernel
  have hchosen : IsChosen files arguments a.templateDirectory (some "views/weave.json") :=
    (isChosen_iff hparse).mpr (by decide +kernel)
  have hsaid : FileSays files (some "views/weave.json") { bindSymbol := "" } :=
    .document rfl (SomeOptions.ofText?_eq_some_iff.mp (by decide +kernel))
  have hgiven : givenTo .bind arguments = ["@"] := by decide +kernel
  obtain ⟨-, -, hrepair⟩ := load_eq_iff files hparse
  exact ⟨hparse, hchosen, hsaid, hgiven, by decide,
    hrepair _ _ _ hchosen hsaid hgiven (by decide)⟩

end Config

end HtmlTemplate

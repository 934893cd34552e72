import HtmlTemplate.Program.Config
import HtmlTemplate.Proofs.Files.Ancestors
import HtmlTemplate.Proofs.Files.Texts
import HtmlTemplate.Proofs.Files.Walking

/-!
# The nearest configuration

The search for a configuration cuts pieces off the path of the directory of a template. What is cut
off are directories as long as there are no two dots among it: then the file that is found belongs
to the directory of the template or to one around it, and no nearer one has such a file
(`path?_nearest`). When two dots are cut off, the search goes back into the directory that they lead
out of (`path?_not_nearest`).

## Around a directory

That one directory is around another is said of locations, which have no dots, and not of paths. A
location is given by the names on the way to it, so that a directory around it is a rest of these
names. What the search cuts off a path are names on the way too, unless there are two dots among
them.
-/

namespace HtmlTemplate

namespace Path

variable {absolute : Bool} {ps t k : List String}

private theorem not_cons_suffix_of_suffix {p : String} (h : t <:+ k) : ¬p :: k <:+ t := by
  intro hcons
  have hle := hcons.length_le
  have hle' := h.length_le
  rw [List.length_cons] at hle
  omega

theorem find?_settledTails {test : List String → Bool}
    (h : (settledTails absolute ps).find? test = some t) :
    test t = true ∧ t <:+ ps ∧
      ∀ p k, p :: k <:+ ps → t <:+ k → isIdle p = false → test (p :: k) = false := by
  induction ps with
  | nil =>
    rw [settledTails, List.find?_singleton] at h
    split_ifs at h with htest
    obtain rfl := Option.some.inj h
    exact ⟨htest, List.suffix_rfl, fun p k hp hk ↦ absurd hp (not_cons_suffix_of_suffix hk)⟩
  | cons q ps ih =>
    by_cases hhere : counts absolute q ps = true ∧ test (q :: ps) = true
    · obtain ⟨hcounts, htest⟩ := hhere
      rw [settledTails, if_pos hcounts, List.find?_cons_of_pos htest] at h
      obtain rfl := Option.some.inj h
      exact ⟨htest, List.suffix_rfl, fun p k hp hk ↦ absurd hp (not_cons_suffix_of_suffix hk)⟩
    · have hlater : (settledTails absolute ps).find? test = some t := by
        rw [settledTails] at h
        split_ifs at h with hcounts
        · rwa [List.find?_cons_of_neg fun htest ↦ hhere ⟨hcounts, htest⟩] at h
        · exact h
      obtain ⟨htest, hsuffix, hlonger⟩ := ih hlater
      refine ⟨htest, hsuffix.trans (List.suffix_cons q ps), fun p k hp hk hidle ↦ ?_⟩
      obtain heq | hp := List.suffix_cons_iff.mp hp
      · cases heq
        rw [counts, hidle] at hhere
        simpa using hhere
      · exact hlonger p k hp hk hidle

end Path

namespace Config

open HtmlTemplate.Path (locate walk names)

variable {d : Directory} {a : Arguments} {path : String} {p : Path}

private theorem ofText_dot : Path.ofText "." = ⟨false, ["."]⟩ := by
  rw [Path.ofText_of_ne_slash (by decide)]
  rfl

private theorem isPlain_dot : (Path.ofText ".").IsPlain :=
  Path.isPlain_ofText (by decide) (by rw [ofText_dot])

/-- The directory of a template is read as the parent of the template, or as a dot in place of
nothing. -/
theorem ofText_templateDirectory (hrelative : (Path.ofText a.template).absolute = false)
    (hparent : (Path.ofText a.template).parent? = some p) :
    p.IsPlain ∧ Path.ofText a.templateDirectory = if p.pieces = [] then Path.ofText "." else p := by
  have hne : a.template ≠ "" := by
    intro heq
    rw [heq, Path.ofText_empty] at hparent
    exact nomatch hparent
  have hplain := (Path.isPlain_ofText hne hrelative).of_parent? hparent
  refine ⟨hplain, ?_⟩
  rw [Arguments.templateDirectory, hparent]
  simp only [String.isEmpty_iff, hplain.text_eq_empty_iff]
  split_ifs with hnil
  · rfl
  · exact hplain.ofText_text hnil

theorem isPlain_templateDirectory (hrelative : (Path.ofText a.template).absolute = false) :
    (Path.ofText a.templateDirectory).IsPlain := by
  cases hparent : (Path.ofText a.template).parent? with
  | none =>
    rw [Arguments.templateDirectory, hparent]
    exact isPlain_dot
  | some p =>
    obtain ⟨hplain, hdir⟩ := ofText_templateDirectory hrelative hparent
    rw [hdir]
    split_ifs
    · exact isPlain_dot
    · exact hplain

theorem isIdle_fileName : Path.isIdle fileName = false := by decide

theorem isPlain_child (h : p.IsPlain) : (p.child fileName).IsPlain :=
  h.child (by decide) (by decide)

theorem file?_child (h : p.IsPlain) :
    d.file? (p.child fileName).text =
      (d.follow [] (p.pieces.reverse ++ [fileName])).bind d.at? := by
  have hchild := isPlain_child h
  have hpieces : (p.child fileName).pieces ≠ [""] := by
    rw [Path.child]
    intro heq
    exact absurd (List.cons.inj heq).1 (by decide)
  rw [Directory.file?, hchild.ofText_text (List.cons_ne_nil _ _), Directory.resolve?,
    hchild.relative, Bool.false_or, if_neg (by simpa using hpieces), Path.child, List.reverse_cons]

/-! ## The search

A file that the search finds is found under a path, and the path leads to a directory that has the
file. The rests that were tried before are longer, and have no such file. -/

variable {l m current : Location} {t cut us : List String} {f : File}

theorem exists_follow_of_file? {path : Path} (h : path.IsPlain)
    (hfile : (d.file? (path.child fileName).text).isSome = true) :
    ∃ l, d.follow [] path.pieces.reverse = some l ∧ d.at? (fileName :: l) ≠ none := by
  rw [file?_child h, Directory.follow_append] at hfile
  obtain ⟨f, hf⟩ := Option.isSome_iff_exists.mp hfile
  obtain ⟨m, hm, hf⟩ := Option.bind_eq_some_iff.mp hf
  obtain ⟨l, hl, hm⟩ := Option.bind_eq_some_iff.mp hm
  rw [Directory.follow_cons] at hm
  split_ifs at hm with hdir hidle hup
  · rw [isIdle_fileName] at hidle
    exact absurd hidle Bool.false_ne_true
  · exact absurd hup (by decide)
  · rw [Directory.follow] at hm
    obtain rfl := Option.some.inj hm
    exact ⟨l, hl, by rw [hf]; exact Option.some_ne_none f⟩

theorem file?_of_at? (h : Path.IsPlain ⟨false, us ++ t⟩) (hl : d.follow [] t.reverse = some l)
    (hus : ".." ∉ us) (hfile : d.at? (fileName :: (names us ++ l)) = some f) :
    d.file? (Path.child ⟨false, us ++ t⟩ fileName).text = some f := by
  have hnames : (names us.reverse).reverse = names us := by
    rw [Path.names_reverse, List.reverse_reverse]
  rw [← hnames] at hfile
  have hfollow := Directory.follow_of_at? hfile (by simpa using hus) isIdle_fileName (by decide)
  rw [file?_child h, List.reverse_append, List.append_assoc, Directory.follow_append, hl,
    Option.bind_some, hfollow, Option.bind_some, hfile]

theorem locate_append (hl : d.follow [] t.reverse = some l) (hus : ".." ∉ us) (current : Location) :
    locate current ⟨false, us ++ t⟩ = names us ++ (l ++ current) := by
  have hwalk := Directory.walk_of_follow hl current
  rw [List.nil_append] at hwalk
  rw [locate, List.reverse_append, Path.walk_append]
  show walk (walk current t.reverse) us.reverse = _
  rw [hwalk, Path.walk_of_notMem (by simpa using hus), Path.names_reverse, List.reverse_reverse]

theorem locate_child (current : Location) (p : Path) :
    locate current (p.child fileName) = fileName :: locate current p := by
  rw [locate, Path.child, List.reverse_cons, Path.walk_append]
  rfl

/-- What the search finds: a file in a directory that pieces are cut off to get to, but not a longer
rest that ends in a name and has such a file. -/
theorem exists_of_path? (hrelative : (Path.ofText a.template).absolute = false)
    (hconfig : a.config = none) (hfound : path? d.file? a = some path) :
    ∃ cut t l, Path.ofText a.templateDirectory = ⟨false, cut ++ t⟩ ∧
      Path.ofText path = Path.child ⟨false, t⟩ fileName ∧
      d.follow [] t.reverse = some l ∧ d.at? (fileName :: l) ≠ none ∧
      ∀ p k, p :: k <:+ cut ++ t → t <:+ k → Path.isIdle p = false →
        d.file? (Path.child ⟨false, p :: k⟩ fileName).text = none := by
  have hplain := isPlain_templateDirectory hrelative
  rw [path?, hconfig, Option.none_or, find?, candidates, Path.ancestors, List.map_map,
    List.find?_map, Option.map_eq_some_iff, hplain.relative] at hfound
  obtain ⟨t, ht, rfl⟩ := hfound
  obtain ⟨htest, ⟨cut, hcut⟩, hlonger⟩ := Path.find?_settledTails ht
  have hdir : Path.ofText a.templateDirectory = ⟨false, cut ++ t⟩ := by
    rw [hcut, ← hplain.relative]
  rw [hdir] at hplain
  have htplain : Path.IsPlain ⟨false, t⟩ := hplain.of_suffix (List.suffix_append cut t)
  obtain ⟨l, hl, hfile⟩ := exists_follow_of_file? htplain htest
  refine ⟨cut, t, l, hdir, (isPlain_child htplain).ofText_text (List.cons_ne_nil _ _), hl, hfile,
    ?_⟩
  intro p k hp hk hidle
  rw [hcut] at hp
  exact Option.not_isSome_iff_eq_none.mp (Bool.eq_false_iff.mp (hlonger p k hp hk hidle))

/-- Are there no two dots among the pieces that are cut off a directory to get to a file? -/
def CutsNoDots (directory path : String) : Prop :=
  ∃ cut, (Path.ofText directory).pieces = cut ++ (Path.ofText path).pieces.tail ∧ ".." ∉ cut

theorem cutsNoDots_of_notMem (hrelative : (Path.ofText a.template).absolute = false)
    (hconfig : a.config = none) (hfound : path? d.file? a = some path)
    (hdots : ".." ∉ (Path.ofText a.templateDirectory).pieces) :
    CutsNoDots a.templateDirectory path := by
  obtain ⟨cut, t, -, hdir, hpath, -⟩ := exists_of_path? hrelative hconfig hfound
  rw [hdir] at hdots
  refine ⟨cut, ?_, fun hmem ↦ hdots (List.mem_append_left t hmem)⟩
  rw [hdir, hpath]
  rfl

/-- **The configuration that is found is the nearest one.** The file is in the directory of the
template or in one around it, wherever the current directory is, and the directories in between have
no such file. -/
theorem path?_nearest (d : Directory) (current : Location)
    (hrelative : (Path.ofText a.template).absolute = false) (hconfig : a.config = none)
    (hfound : path? d.file? a = some path) (hcut : CutsNoDots a.templateDirectory path) :
    ∃ l, locate current (Path.ofText path) = fileName :: (l ++ current) ∧
      d.at? (fileName :: l) ≠ none ∧
      l ++ current <:+ locate current (Path.ofText a.templateDirectory) ∧
      ∀ m, m ++ current <:+ locate current (Path.ofText a.templateDirectory) → l <:+ m → m ≠ l →
        d.at? (fileName :: m) = none := by
  obtain ⟨cut, t, l, hdir, hpath, hl, hfile, hlonger⟩ := exists_of_path? hrelative hconfig hfound
  have hplain := isPlain_templateDirectory hrelative
  obtain ⟨cut', hpieces, hdots⟩ := hcut
  rw [hdir, hpath] at hpieces
  obtain rfl : cut = cut' := List.append_cancel_right hpieces
  rw [hdir] at hplain
  rw [hdir, hpath, locate_append hl hdots, locate_child]
  refine ⟨l, congrArg (fileName :: ·) (locate_append hl List.not_mem_nil current), hfile,
    List.suffix_append _ _, ?_⟩
  rintro m hm ⟨k, rfl⟩ hne
  have hk : k <:+ names cut := by
    obtain ⟨before, hbefore⟩ := hm
    rw [List.append_assoc k, ← List.append_assoc before] at hbefore
    exact ⟨before, List.append_cancel_right hbefore⟩
  have hknil : k ≠ [] := by
    rintro rfl
    exact hne rfl
  obtain ⟨p, us, ⟨before, rfl⟩, hidle, rfl⟩ := Path.exists_suffix_of_suffix_names hk hknil
  -- a file in between would have been found earlier
  by_contra hnearer
  obtain ⟨f, hf⟩ := Option.ne_none_iff_exists'.mp hnearer
  have hsuffix : p :: us ++ t <:+ before ++ p :: us ++ t := ⟨before, (List.append_assoc _ _ _).symm⟩
  have hfound := file?_of_at? (hplain.of_suffix hsuffix) hl
    (fun hmem ↦ hdots (List.mem_append_right _ hmem)) hf
  exact nomatch (hlonger p (us ++ t) hsuffix (List.suffix_append us t) hidle).symm.trans hfound

/-- The file of the outer directory is found, since the inner one has none. -/
theorem path?_nearest_outer :
    let d : Directory :=
      [(["page.html", "lists", "views"], .text ""), (["weave.json", "views"], .text "[]")]
    let a : Arguments := { template := "views/./lists/page.html" }
    let dir := locate ["home"] (Path.ofText a.templateDirectory)
    (Path.ofText a.template).absolute = false ∧ a.config = none ∧
      path? d.file? a = some "views/weave.json" ∧
      CutsNoDots a.templateDirectory "views/weave.json" ∧
      ∃ l, locate ["home"] (Path.ofText "views/weave.json") = fileName :: (l ++ ["home"]) ∧
        d.at? (fileName :: l) ≠ none ∧ l ++ ["home"] <:+ dir ∧
        ∀ m, m ++ ["home"] <:+ dir → l <:+ m → m ≠ l → d.at? (fileName :: m) = none := by
  intro d a dir
  have hrelative : (Path.ofText a.template).absolute = false := by decide +kernel
  have hfound : path? d.file? a = some "views/weave.json" := by decide +kernel
  have hcut : CutsNoDots a.templateDirectory "views/weave.json" :=
    cutsNoDots_of_notMem hrelative rfl hfound (by decide +kernel)
  exact ⟨hrelative, rfl, hfound, hcut, path?_nearest d ["home"] hrelative rfl hfound hcut⟩

/-- The two dots in front of the template are cut off, and the file that is found is in a directory
that the template is not in. -/
theorem path?_not_nearest : ¬∀ (d : Directory) (a : Arguments) (path : String) (current : Location),
    (Path.ofText a.template).absolute = false → a.config = none → path? d.file? a = some path →
    ∃ l, locate current (Path.ofText path) = fileName :: (l ++ current) ∧
      d.at? (fileName :: l) ≠ none ∧
      l ++ current <:+ locate current (Path.ofText a.templateDirectory) ∧
      ∀ m, m ++ current <:+ locate current (Path.ofText a.templateDirectory) → l <:+ m → m ≠ l →
        d.at? (fileName :: m) = none := by
  intro h
  let d : Directory := [(["weave.json", "views"], .text "[]")]
  let a : Arguments := { template := "views/../page.html" }
  have hfound : path? d.file? a = some "views/weave.json" := by decide +kernel
  obtain ⟨l, hl, -, hsuffix, -⟩ := h d a _ [] (by decide +kernel) rfl hfound
  have hfile : locate [] (Path.ofText "views/weave.json") = ["weave.json", "views"] := by
    decide +kernel
  have hdir : locate [] (Path.ofText a.templateDirectory) = [] := by decide +kernel
  rw [List.append_nil] at hl hsuffix
  obtain rfl : l = ["views"] := (List.cons.inj (hl.symm.trans hfile)).2
  rw [hdir] at hsuffix
  exact absurd (List.suffix_nil.mp hsuffix) (List.cons_ne_nil _ _)

end Config

end HtmlTemplate

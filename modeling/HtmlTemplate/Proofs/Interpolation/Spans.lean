import HtmlTemplate.Interpolation
import HtmlTemplate.Proofs.Text.Occurrences
import HtmlTemplate.Proofs.Text.Slices
import Mathlib.Data.List.Chain

/-!
# The spans of a text

A span stands wherever two marks enclose a character or more. Many of these overlap, and a text is
scanned for some of them from the left: of those that begin at the cursor or behind it the next one
is the one farthest to the left, and the shortest that begins there; then the cursor stands at its
end. Such a scan has one result only, and it is the list of `places` (`areSuccessive_iff`).

The runs are what these places cut the text into (`runsFrom_placesFrom`); no two literal runs are
neighbours, and none is empty.

## The invariant

The scan reads a text `done ++ rest` from the width of `done` on. The spans that begin there or
behind are those of `rest` (`isSpanAt_append_iff`), and the first of them is the one that
`firstSpan?` finds in `rest`. If it finds none, no later opening mark has a closing mark either
(`start_lt_of_no_span`).

## Bytes

Places are counted in bytes, and two of them are compared as numbers, while the scan takes prefixes
off a list of characters. Of two beginnings of one text the longer one is wider
(`width_le_width_iff`), so that both orders are the same, and a place determines what is in front of
it and what stands there.
-/

namespace HtmlTemplate.Interpolation

open Text (width slice IsBoundary IsFirstCut IsEnclosed)

theorem width_le_width_iff {a b c d : List Char} (h : a ++ b = c ++ d) :
    width a ≤ width c ↔ a.length ≤ c.length := by
  constructor
  · intro hle
    by_contra hlt
    obtain ⟨x, rfl, -⟩ := Text.exists_append_of_length_le h.symm (Nat.le_of_not_le hlt)
    have hx : x ≠ [] := by
      rintro rfl
      simp at hlt
    have := Text.width_pos_of_ne_nil hx
    rw [Text.width_append] at hle
    omega
  · intro hle
    obtain ⟨x, rfl, -⟩ := Text.exists_append_of_length_le h hle
    rw [Text.width_append]
    omega

/-! ## Spans at their places -/

def Place.behind (before content : List Char) : Place where
  start := width before
  stop := width before + width (Run.span content).source
  content := content

/-- Does a span of the text stand at the place? -/
def IsSpanAt (s : List Char) (p : Place) : Prop :=
  ∃ before content behind,
    IsEnclosed opening closing s before content behind ∧ p = .behind before content

variable {s done rest before content behind : List Char} {cursor : Nat} {p q : Place}
  {ps qs : List Place}

namespace IsSpanAt

theorem start_lt_stop (h : IsSpanAt s p) : p.start < p.stop := by
  obtain ⟨a, c, b, -, rfl⟩ := h
  exact Nat.lt_add_of_pos_right (Text.width_pos_of_ne_nil (List.cons_ne_nil _ _))

theorem isBoundary_start (h : IsSpanAt s p) : IsBoundary s p.start := by
  obtain ⟨a, c, b, ⟨-, hs⟩, rfl⟩ := h
  exact ⟨a, _, hs.symm, rfl⟩

theorem isBoundary_stop (h : IsSpanAt s p) : IsBoundary s p.stop := by
  obtain ⟨a, c, b, ⟨-, rfl⟩, rfl⟩ := h
  refine ⟨a ++ (Run.span c).source, b, ?_, ?_⟩
  · simp only [Run.source, List.append_assoc]
  · rw [Text.width_append]
    rfl

theorem slice_eq (h : IsSpanAt s p) :
    slice p.start p.stop s = opening ++ p.content ++ closing := by
  obtain ⟨a, c, b, ⟨-, rfl⟩, rfl⟩ := h
  have hslice := Text.slice_append a (opening ++ c ++ closing) b
  simp only [List.append_assoc] at hslice ⊢
  exact hslice

theorem slice_content (h : IsSpanAt s p) :
    slice (p.start + width opening) (p.stop - width closing) s = p.content := by
  obtain ⟨a, c, b, ⟨-, rfl⟩, rfl⟩ := h
  have hslice := Text.slice_append (a ++ opening) c (closing ++ b)
  have hstop : (Place.behind a c).stop - width closing = width (a ++ opening) + width c := by
    simp only [Place.behind, Run.source, Text.width_append]
    omega
  rw [List.append_assoc] at hslice
  rwa [hstop, show (Place.behind a c).start + width opening = width (a ++ opening) from
    (Text.width_append a opening).symm]

/-- A span is known by its ends, because its content can be read from the text. -/
theorem eq_of_start_stop (hp : IsSpanAt s p) (hq : IsSpanAt s q) (hstart : p.start = q.start)
    (hstop : p.stop = q.stop) : p = q := by
  have hcontent : p.content = q.content := by
    rw [← hp.slice_content, ← hq.slice_content, hstart, hstop]
  cases p
  cases q
  cases hstart
  cases hstop
  cases hcontent
  rfl

end IsSpanAt

/-! ## The scan

From the cursor on, the next span is the one with the first opening mark, and of those the shortest.
It can be said without the scan, and there is at most one (`IsNextSpan.unique`). -/

/-- Is the span at the place the next one of a scan that has come to the cursor? -/
structure IsNextSpan (s : List Char) (cursor : Nat) (p : Place) : Prop where
  isSpanAt : IsSpanAt s p
  le_start : cursor ≤ p.start
  leftmost : ∀ {q}, IsSpanAt s q → cursor ≤ q.start → p.start ≤ q.start
  shortest : ∀ {q}, IsSpanAt s q → q.start = p.start → p.stop ≤ q.stop

/-- Are these the places at which a scan finds a span, from the cursor to the end of the text? -/
inductive AreSuccessive (s : List Char) : Nat → List Place → Prop
  | nil {cursor : Nat} : (∀ p, IsSpanAt s p → p.start < cursor) → AreSuccessive s cursor []
  | cons {cursor : Nat} {p : Place} {ps : List Place} :
    IsNextSpan s cursor p → AreSuccessive s p.stop ps → AreSuccessive s cursor (p :: ps)

/-- The next span ends at the first closing mark behind the first character of its content. -/
theorem IsNextSpan.isFirstCut_closing (h : IsNextSpan s cursor p) :
    ∃ c more, p.content = c :: more ∧ IsFirstCut closing (more ++ closing) more [] := by
  obtain ⟨before, content, behind, ⟨hcontent, rfl⟩, rfl⟩ := h.isSpanAt
  obtain ⟨c, more, rfl⟩ := List.exists_cons_of_ne_nil hcontent
  refine ⟨c, more, rfl, by rw [List.append_nil], fun {a b} hab ↦ ?_⟩
  -- any other closing mark would end another span that begins at the same place
  have hspan : IsSpanAt (before ++ (opening ++ (c :: more ++ (closing ++ behind))))
      (.behind before (c :: a)) := by
    refine ⟨before, c :: a, b ++ behind, ⟨List.cons_ne_nil _ _, ?_⟩, rfl⟩
    rw [List.cons_append, List.cons_append, ← List.append_assoc more, ← hab]
    simp only [List.append_assoc]
  have hstop := h.shortest hspan rfl
  simp only [Place.behind, Run.source, Text.width_append, Text.width_cons] at hstop
  exact (width_le_width_iff hab.symm).mp (by omega)

theorem IsNextSpan.unique (hp : IsNextSpan s cursor p) (hq : IsNextSpan s cursor q) : p = q := by
  have hstart : p.start = q.start :=
    Nat.le_antisymm (hp.leftmost hq.isSpanAt hq.le_start) (hq.leftmost hp.isSpanAt hp.le_start)
  exact hp.isSpanAt.eq_of_start_stop hq.isSpanAt hstart
    (Nat.le_antisymm (hp.shortest hq.isSpanAt hstart.symm) (hq.shortest hp.isSpanAt hstart))

namespace AreSuccessive

/-- **A scan has one result.** -/
theorem unique (hps : AreSuccessive s cursor ps) (hqs : AreSuccessive s cursor qs) : ps = qs := by
  induction hps generalizing qs with
  | nil hno =>
    cases hqs with
    | nil => rfl
    | cons hq => exact absurd (hno _ hq.isSpanAt) (Nat.not_lt.mpr hq.le_start)
  | cons hp hps ih =>
    cases hqs with
    | nil hno => exact absurd (hno _ hp.isSpanAt) (Nat.not_lt.mpr hp.le_start)
    | cons hq hqs =>
      obtain rfl := hp.unique hq
      rw [ih hqs]

theorem exists_isNextSpan_of_mem (h : AreSuccessive s cursor ps) :
    ∀ p ∈ ps, ∃ cursor, IsNextSpan s cursor p := by
  induction h with
  | nil => exact List.forall_mem_nil _
  | cons hp _ ih => exact List.forall_mem_cons.mpr ⟨⟨_, hp⟩, ih⟩

/-- The spans of a scan stand behind the cursor, one behind another. -/
theorem pairwise (h : AreSuccessive s cursor ps) :
    (∀ p ∈ ps, cursor ≤ p.start) ∧ ps.Pairwise fun p q ↦ p.stop ≤ q.start := by
  induction h with
  | nil => exact ⟨List.forall_mem_nil _, List.Pairwise.nil⟩
  | cons hp _ ih =>
    have hle := hp.le_start
    have hlt := hp.isSpanAt.start_lt_stop
    refine ⟨List.forall_mem_cons.mpr ⟨hle, fun q hq ↦ ?_⟩, List.pairwise_cons.mpr ih⟩
    have := ih.1 q hq
    omega

end AreSuccessive

/-! ## What is found in the rest -/

theorem firstSpan?_eq (s : List Char) : firstSpan? s = Text.enclosed? opening closing s := by
  rw [firstSpan?, Text.enclosed?]
  rcases Text.cutAt opening s with _ | ⟨before, _ | ⟨c, t⟩⟩
  · rfl
  · rfl
  · dsimp only
    rcases Text.cutAt closing t with _ | ⟨content, behind⟩ <;> rfl

/-- What stands in the text from the width of `done` on stands in the rest. -/
theorem isSpanAt_append_iff : IsSpanAt (done ++ rest) p ∧ width done ≤ p.start ↔
    ∃ a c b, IsEnclosed opening closing rest a c b ∧ p = .behind (done ++ a) c := by
  constructor
  · rintro ⟨⟨before, c, b, ⟨hc, hs⟩, rfl⟩, hle⟩
    have hlength : done.length ≤ before.length := (width_le_width_iff hs.symm).mp hle
    obtain ⟨a, rfl, rfl⟩ := Text.exists_append_of_length_le hs.symm hlength
    exact ⟨a, c, b, ⟨hc, rfl⟩, rfl⟩
  · rintro ⟨a, c, b, ⟨hc, rfl⟩, rfl⟩
    refine ⟨⟨done ++ a, c, b, ⟨hc, by rw [List.append_assoc]⟩, rfl⟩, ?_⟩
    simp only [Place.behind, Text.width_append]
    omega

/-- **Where no span is found, none begins**, not with a later opening mark either. -/
theorem start_lt_of_no_span (h : firstSpan? rest = none) (hp : IsSpanAt (done ++ rest) p) :
    p.start < width done := by
  by_contra hle
  obtain ⟨a, c, b, hrest, -⟩ := isSpanAt_append_iff.mp ⟨hp, Nat.le_of_not_lt hle⟩
  rw [firstSpan?_eq] at h
  exact Text.enclosed?_eq_none_iff.mp h a c b hrest

/-- **The span that is found is the next one.** -/
theorem isNextSpan_of_firstSpan? (h : firstSpan? rest = some (before, content, behind)) :
    IsNextSpan (done ++ rest) (width done) (.behind (done ++ before) content) := by
  rw [firstSpan?_eq] at h
  have hfirst := Text.enclosed?_eq_some_iff.mp h
  obtain ⟨hspan, hle⟩ := isSpanAt_append_iff.mpr ⟨before, content, behind, hfirst.isEnclosed, rfl⟩
  have hsame {a c b : List Char} (hrest : IsEnclosed opening closing rest a c b) :
      before ++ (opening ++ (content ++ (closing ++ behind))) =
        a ++ (opening ++ (c ++ (closing ++ b))) := hfirst.isEnclosed.2.trans hrest.2.symm
  refine ⟨hspan, hle, fun {q} hq hcursor ↦ ?_, fun {q} hq hstart ↦ ?_⟩
  · obtain ⟨a, c, b, hrest, rfl⟩ := isSpanAt_append_iff.mp ⟨hq, hcursor⟩
    have hwidth := (width_le_width_iff (hsame hrest)).mpr (hfirst.leftmost hrest)
    simp only [Place.behind, Text.width_append]
    omega
  · obtain ⟨a, c, b, hrest, rfl⟩ := isSpanAt_append_iff.mp ⟨hq, hstart ▸ hle⟩
    simp only [Place.behind, Text.width_append] at hstart
    have hlength : a.length = before.length :=
      Nat.le_antisymm ((width_le_width_iff (hsame hrest).symm).mp (by omega))
        (hfirst.leftmost hrest)
    -- behind the same opening mark the contents begin the same text
    have hbehind := (List.append_inj (hsame hrest) hlength.symm).2
    have hwidth := (width_le_width_iff (List.append_cancel_left hbehind)).mpr
      (hfirst.shortest hrest hlength)
    simp only [Place.behind, Run.source, Text.width_append]
    omega

/-! ## The places of the runs -/

/-- The runs that the spans at the given places cut out of a text, from an offset on. -/
def runsFrom (s : List Char) (last : Nat) : List Place → List Run
  | [] => literalRun (slice last (width s) s)
  | p :: ps => literalRun (slice last p.start s) ++ .span p.content :: runsFrom s p.stop ps

theorem placesFrom_literalRun (offset : Nat) (s : List Char) (rs : List Run) :
    placesFrom offset (literalRun s ++ rs) = placesFrom (offset + width s) rs := by
  rw [literalRun]
  rcases s with _ | ⟨c, s⟩ <;> rfl

theorem placesFrom_of_no_span (offset : Nat) (h : firstSpan? rest = none) :
    placesFrom offset (runs rest) = [] := by
  rw [runs_of_no_span h, ← List.append_nil (literalRun rest), placesFrom_literalRun]
  rfl

theorem placesFrom_of_firstSpan? (done : List Char)
    (h : firstSpan? rest = some (before, content, behind)) :
    placesFrom (width done) (runs rest) = .behind (done ++ before) content ::
      placesFrom (Place.behind (done ++ before) content).stop (runs behind) := by
  rw [runs_of_firstSpan? h, placesFrom_literalRun, ← Text.width_append]
  rfl

theorem exists_done (done : List Char) (h : firstSpan? rest = some (before, content, behind)) :
    ∃ done', done ++ rest = done' ++ behind ∧
      (Place.behind (done ++ before) content).stop = width done' := by
  refine ⟨done ++ before ++ (Run.span content).source, ?_, ?_⟩
  · rw [← append_of_firstSpan? h]
    simp only [Run.source, List.append_assoc]
  · simp only [Place.behind, Text.width_append]

/-- **The places of the runs are found by a scan.** -/
theorem areSuccessive_placesFrom (done rest : List Char) :
    AreSuccessive (done ++ rest) (width done) (placesFrom (width done) (runs rest)) := by
  induction rest using runs.induct generalizing done with
  | case1 rest h =>
    rw [placesFrom_of_no_span _ h]
    exact .nil fun p hp ↦ start_lt_of_no_span h hp
  | case2 rest a c b h ih =>
    obtain ⟨done', hrest, hstop⟩ := exists_done done h
    rw [placesFrom_of_firstSpan? done h]
    refine .cons (isNextSpan_of_firstSpan? h) ?_
    rw [hstop, hrest]
    exact ih done'

theorem areSuccessive_iff : AreSuccessive s 0 ps ↔ ps = places s := by
  have hplaces : AreSuccessive s 0 (places s) := areSuccessive_placesFrom [] s
  exact ⟨fun h ↦ h.unique hplaces, fun h ↦ h ▸ hplaces⟩

theorem hasSpan_iff : hasSpan s = true ↔ places s ≠ [] := by
  rw [hasSpan, places]
  rcases h : firstSpan? s with _ | ⟨a, c, b⟩
  · rw [placesFrom_of_no_span 0 h]
    simp
  · rw [show 0 = width [] from rfl, placesFrom_of_firstSpan? [] h]
    simp

/-- What the places of the runs cut out of the text are the runs. -/
theorem runsFrom_placesFrom (done rest : List Char) :
    runsFrom (done ++ rest) (width done) (placesFrom (width done) (runs rest)) = runs rest := by
  induction rest using runs.induct generalizing done with
  | case1 rest h =>
    have hslice := Text.slice_append done rest []
    rw [List.append_nil] at hslice
    rw [placesFrom_of_no_span _ h, runsFrom, Text.width_append, hslice, runs_of_no_span h]
  | case2 rest a c b h ih =>
    obtain ⟨done', hrest, hstop⟩ := exists_done done h
    have hslice := Text.slice_append done a (opening ++ (c ++ (closing ++ b)))
    rw [append_of_firstSpan? h, ← Text.width_append] at hslice
    rw [placesFrom_of_firstSpan? done h, runsFrom, hstop, hrest, ih done', ← hrest,
      runs_of_firstSpan? h]
    exact congrArg (fun t ↦ literalRun t ++ Run.span c :: runs b) hslice

/-! ## Literal runs

What is left between two places is a literal run if it is not empty. -/

private theorem literal_nil_not_mem_literalRun (s : List Char) : Run.literal [] ∉ literalRun s := by
  cases s <;> simp [literalRun]

private theorem literal_nil_not_mem_runs (s : List Char) : Run.literal [] ∉ runs s := by
  fun_induction runs s with
  | case1 => exact literal_nil_not_mem_literalRun _
  | case2 s a c b h ih =>
    simp only [List.mem_append, List.mem_cons, not_or]
    exact ⟨literal_nil_not_mem_literalRun a, by simp, ih⟩

/-- Of two neighbours one is a span. -/
theorem isChain_runs (s : List Char) :
    (runs s).IsChain fun r r' ↦ r.isSpan = true ∨ r'.isSpan = true := by
  fun_induction runs s with
  | case1 s => cases s <;> simp [literalRun]
  | case2 s a c b h ih =>
    have hspan : (Run.span c :: runs b).IsChain fun r r' ↦ r.isSpan = true ∨ r'.isSpan = true :=
      ih.cons fun r hr ↦ .inl rfl
    rcases a with _ | ⟨d, a⟩
    · exact hspan
    · exact List.isChain_cons_cons.mpr ⟨.inr rfl, hspan⟩

/-- **The places of a text are those of a scan, and its runs are what they cut it into.** Where the
scan finds no span in the rest of the text, none begins there. -/
theorem places_of_scan (s : List Char) :
    (∀ ps, AreSuccessive s 0 ps ↔ ps = places s) ∧
    (∀ done rest, done ++ rest = s → firstSpan? rest = none →
      ∀ p, IsSpanAt s p → p.start < width done) ∧
    (places s).Pairwise (fun p q ↦ p.stop ≤ q.start) ∧
    (∀ p ∈ places s,
      p.start < p.stop ∧ IsBoundary s p.start ∧ IsBoundary s p.stop ∧
      slice p.start p.stop s = opening ++ p.content ++ closing ∧
      slice (p.start + width opening) (p.stop - width closing) s = p.content ∧
      ∃ c more, p.content = c :: more ∧ IsFirstCut closing (more ++ closing) more []) ∧
    (hasSpan s = true ↔ places s ≠ []) ∧
    runsFrom s 0 (places s) = runs s ∧
    (runs s).flatMap Run.source = s ∧
    Run.literal [] ∉ runs s ∧
    (runs s).IsChain fun r r' ↦ r.isSpan = true ∨ r'.isSpan = true := by
  have hscan : AreSuccessive s 0 (places s) := areSuccessive_iff.mpr rfl
  refine ⟨fun ps ↦ areSuccessive_iff, ?_, hscan.pairwise.2, fun p hp ↦ ?_, hasSpan_iff,
    runsFrom_placesFrom [] s, flatMap_source_runs s, literal_nil_not_mem_runs s, isChain_runs s⟩
  · rintro done rest rfl hno p hp
    exact start_lt_of_no_span hno hp
  · obtain ⟨cursor, hnext⟩ := hscan.exists_isNextSpan_of_mem p hp
    have hspan := hnext.isSpanAt
    exact ⟨hspan.start_lt_stop, hspan.isBoundary_start, hspan.isBoundary_stop, hspan.slice_eq,
      hspan.slice_content, hnext.isFirstCut_closing⟩

def braces : List Char :=
  "\x7b\x7b\x7bé\x7d\x7d\x7d\x7b\x7b\x7d\x7d\x7d\x7d\x7b\x7bx".toList

private theorem runs_braces : runs braces =
    [.span ['{', 'é'], .literal ['}'], .span ['}'], .literal ['}', '{', '{', 'x']] := by
  rw [runs_of_firstSpan? (a := []) (c := ['{', 'é'])
      (b := "\x7d\x7b\x7b\x7d\x7d\x7d\x7d\x7b\x7bx".toList) rfl,
    runs_of_firstSpan? (a := ['}']) (c := ['}']) (b := "\x7d\x7b\x7bx".toList) rfl,
    runs_of_no_span rfl]
  rfl

theorem places_of_scan_braces :
    AreSuccessive braces 0 [⟨0, 7, ['{', 'é']⟩, ⟨8, 13, ['}']⟩] ∧
      ∀ p, IsSpanAt braces p → p.start < 13 := by
  have hplaces : places braces = [⟨0, 7, ['{', 'é']⟩, ⟨8, 13, ['}']⟩] := by
    rw [places, runs_braces]
    rfl
  refine ⟨((places_of_scan braces).1 _).mpr hplaces.symm, ?_⟩
  exact (places_of_scan braces).2.1
    "\x7b\x7b\x7bé\x7d\x7d\x7d\x7b\x7b\x7d\x7d\x7d".toList
    "\x7d\x7b\x7bx".toList rfl rfl

end HtmlTemplate.Interpolation

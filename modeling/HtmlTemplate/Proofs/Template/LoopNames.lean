import HtmlTemplate.Proofs.Expr.Lexemes
import HtmlTemplate.Proofs.Template.Repetition
import HtmlTemplate.Proofs.Text.Occurrences
import HtmlTemplate.Proofs.Text.Trimming

/-!
# How a `forin` names its loop variables

The expression of a `forin` is cut at its first ` in `. In front of that stand the names, and behind
it the collection.

The names are those of the first group in parentheses that is not empty, its first two parts between
commas; without such a group all that stands in front is the name of the item (`ofForin_names`). A
pair of names can be written with any blanks around them: no name but `in` itself brings an ` in `
into the group (`eq_of_infix_padded`), so the expression is cut behind the group and not inside it.

The collection ends before the next ` in `, where there is one. So what stands behind the first ` in
` is the collection exactly if it does not contain another (`collection_ofForin`): the operator
`in`, or a string with that word between blanks, is torn apart.

## Cuts

The first ` in ` is the place where the expression is cut, so what stands in front of it does not
contain another, not even one that overlaps with it. Names and blanks in parentheses cannot contain
one either, unless a name is `in`: what stands between two blanks there is a whole name. This is
what makes the written pair of names safe (`not_infix`).
-/

namespace HtmlTemplate.Aliases

open Text (isBlank isAllBlank trim IsFirstCut IsEnclosed IsFirstEnclosed)

theorem ofForin_of_not_infix {expression : String} (h : ¬inWord <:+: expression.toList) :
    ofForin expression = ofEach expression := by
  rw [ofForin, Text.cutAt_eq_none_iff.mpr h]

/-! ## The collection

Cutting at every ` in ` and taking the second part is the same as cutting at the first one and then
at the next. -/

section Cut

variable {expression : String} {left right : List Char}
  (h : IsFirstCut inWord expression.toList left right)

include h

theorem collection_of_cut : (ofForin expression).collection =
    String.ofList (trim (((Text.cutAt inWord right).map Prod.fst).getD right)) := by
  rw [ofForin, Text.cutAt_eq_some_iff.mpr h]
  dsimp only
  rcases Text.cutAt inWord right with _ | ⟨between, rest⟩ <;> cases group? left <;> rfl

theorem item_of_cut : (ofForin expression).item =
    String.ofList (trim ((group? left).elim left fun group ↦ (namesOf group).1)) := by
  rw [ofForin, Text.cutAt_eq_some_iff.mpr h]
  dsimp only
  cases group? left <;> rfl

theorem index_of_cut : (ofForin expression).index =
    (group? left).elim "index" fun group ↦
      let index := trim (namesOf group).2
      if index.isEmpty then "index" else String.ofList index := by
  rw [ofForin, Text.cutAt_eq_some_iff.mpr h]
  dsimp only
  cases group? left <;> rfl

end Cut

theorem trim_ne_trim_append (between rest : List Char) :
    trim between ≠ trim (between ++ (inWord ++ rest)) := by
  intro h
  have hfilter := congrArg (List.filter fun c ↦ !isBlank c) h
  rw [Text.filter_trim (by simp), Text.filter_trim (by simp), List.filter_append,
    List.filter_append, show inWord.filter (fun c ↦ !isBlank c) = ['i', 'n'] by decide] at hfilter
  have hlength := congrArg List.length hfilter
  simp only [List.length_append, List.length_cons, List.length_nil] at hlength
  omega

/-- **The collection ends before the next ` in `.** So it is all that stands behind the first one
exactly if there is no other. -/
theorem collection_ofForin (l c : String)
    (h : IsFirstCut inWord (l.toList ++ inWord) l.toList []) :
    (∀ between rest, IsFirstCut inWord c.toList between rest →
      (ofForin (l ++ " in " ++ c)).collection = String.ofList (trim between)) ∧
    ((ofForin (l ++ " in " ++ c)).collection = Text.trimmed c ↔ ¬inWord <:+: c.toList) := by
  have hcut : IsFirstCut inWord (l ++ " in " ++ c).toList l.toList c.toList := by
    have happend := h.append_right c.toList
    rwa [String.toList_append, String.toList_append, List.append_assoc]
  have hnext (between rest : List Char) (hc : IsFirstCut inWord c.toList between rest) :
      (ofForin (l ++ " in " ++ c)).collection = String.ofList (trim between) := by
    rw [collection_of_cut hcut, Text.cutAt_eq_some_iff.mpr hc]
    rfl
  refine ⟨hnext, fun heq ↦ ?_, fun hno ↦ ?_⟩
  · rw [← Text.cutAt_eq_none_iff]
    rcases hc : Text.cutAt inWord c.toList with _ | ⟨between, rest⟩
    · rfl
    · rw [hnext between rest (Text.cutAt_eq_some_iff.mp hc), Text.trimmed] at heq
      refine absurd (String.ofList_injective heq) ?_
      rw [← Text.append_of_cutAt hc]
      exact trim_ne_trim_append between rest
  · rw [collection_of_cut hcut, Text.cutAt_eq_none_iff.mpr hno]
    rfl

/-- A collection that is a member of another name. -/
theorem collection_ofForin_member :
    IsFirstCut inWord ("(v, k)".toList ++ inWord) "(v, k)".toList [] ∧
      (ofForin ("(v, k)" ++ " in " ++ " data.list ")).collection = "data.list" := by
  have hfirst : IsFirstCut inWord ("(v, k)".toList ++ inWord) "(v, k)".toList [] :=
    Text.cutAt_eq_some_iff.mp (by decide)
  refine ⟨hfirst, ((collection_ofForin _ _ hfirst).2.mpr ?_).trans (by decide)⟩
  rw [← Text.cutAt_eq_none_iff]
  decide

/-- A string in the collection that holds the word between blanks. -/
theorem collection_ofForin_string : ¬ ∀ l c : String,
    IsFirstCut inWord (l.toList ++ inWord) l.toList [] →
      (ofForin (l ++ " in " ++ c)).collection = Text.trimmed c := by
  intro h
  have hstring := h "x" "\"a in b\"" (Text.cutAt_eq_some_iff.mp (by decide))
  revert hstring
  decide

/-! ## The group of names

A group begins at the first opening parenthesis behind which a closing one stands with something in
between. -/

theorem group?_eq (s : List Char) :
    group? s = (Text.enclosed? ['('] [')'] s).map fun found ↦ found.2.1 := by
  rw [group?, Text.enclosed?, Text.cutAt_singleton]
  rcases Text.cutAtChar (· == '(') s with _ | ⟨before, _ | ⟨c, t⟩⟩
  · rfl
  · rfl
  · dsimp only
    rw [Text.cutAt_singleton]
    cases Text.cutAtChar (· == ')') t <;> rfl

theorem group?_of_isFirstEnclosed {left before group behind : List Char}
    (h : IsFirstEnclosed ['('] [')'] left before group behind) : group? left = some group := by
  rw [group?_eq, Text.enclosed?_eq_some_iff.mpr h]
  rfl

theorem group?_of_not_isEnclosed {left : List Char}
    (h : ∀ before group behind, ¬IsEnclosed ['('] [')'] left before group behind) :
    group? left = none := by
  rw [group?_eq, Text.enclosed?_eq_none_iff.mpr h]
  rfl

theorem namesOf_eq (group : List Char) :
    namesOf group = ((group.splitOn ',').getD 0 [], (group.splitOn ',').getD 1 []) := by
  rcases hfirst : Text.cutAtChar (· == ',') group with _ | ⟨first, rest⟩
  · rw [Text.splitOn_of_cutAtChar_eq_none hfirst, namesOf, hfirst]
    rfl
  · rcases hsecond : Text.cutAtChar (· == ',') rest with _ | ⟨second, rest'⟩
    · rw [Text.splitOn_of_cutAtChar hfirst, Text.splitOn_of_cutAtChar_eq_none hsecond]
      simp only [namesOf, hfirst, hsecond]
      rfl
    · rw [Text.splitOn_of_cutAtChar hfirst, Text.splitOn_of_cutAtChar hsecond]
      simp only [namesOf, hfirst, hsecond]
      rfl

/-! ## Names with blanks around them -/

def IsPadded (name s : List Char) : Prop :=
  ∃ a b, isAllBlank a = true ∧ isAllBlank b = true ∧ s = a ++ name ++ b

/-- Can the text be the name of a loop variable in a group? It is a name, and not the word `in`. -/
structure IsLoopName (name : List Char) : Prop where
  ne_nil : name ≠ []
  part : ∀ c ∈ name, Expr.isNamePart c = true
  ne_in : name ≠ ['i', 'n']

/-- A text without blanks that stands between two blanks, inside of another one with blanks around
it, is that other text. -/
theorem eq_of_infix_padded {name s word : List Char} {x y : Char} (hs : IsPadded name s)
    (hname : ∀ c ∈ name, isBlank c = false) (hword : ∀ c ∈ word, isBlank c = false)
    (hne : word ≠ []) (hx : isBlank x = true) (hy : isBlank y = true)
    (h : x :: (word ++ [y]) <:+: s) : word = name := by
  obtain ⟨a, b, ha, hb, rfl⟩ := hs
  obtain ⟨front, back, heq⟩ := h
  obtain ⟨d, word, rfl⟩ := List.exists_cons_of_ne_nil hne
  have hd := hword d List.mem_cons_self
  have hnot {t : List Char} (ht : isAllBlank t = true) : d ∉ t := fun hmem ↦
    Bool.false_ne_true (hd.symm.trans (List.all_eq_true.mp ht d hmem))
  -- the blanks in front end before the word begins
  obtain ⟨z, hz, hrest⟩ : ∃ z, front ++ [x] = a ++ z ∧
      name ++ b = z ++ (d :: (word ++ y :: back)) := by
    refine Text.exists_append_of_length_le (by simpa using heq.symm) ?_
    by_contra hlt
    obtain ⟨z, rfl, -⟩ : ∃ z, a = front ++ [x, d] ++ z ∧ word ++ y :: back = z ++ (name ++ b) := by
      refine Text.exists_append_of_length_le (by simpa using heq) ?_
      simp only [List.length_append, List.length_cons, List.length_nil] at hlt ⊢
      omega
    exact hnot ha (by simp)
  rcases List.eq_nil_or_concat z with rfl | ⟨z, w, rfl⟩
  · -- so both are what stands in front of the next blank
    have htake := congrArg (List.takeWhile fun c ↦ !isBlank c) hrest
    rw [List.nil_append, ← List.cons_append,
      Text.takeWhile_append_stop back (fun c hc ↦ by rw [hword c hc]; rfl) (by rw [hy]; rfl),
      List.takeWhile_append_of_pos fun c hc ↦ by rw [hname c hc]; rfl] at htake
    rcases b with _ | ⟨c, b⟩
    · rw [List.takeWhile_nil, List.append_nil] at htake
      exact htake.symm
    · rw [List.takeWhile_cons_of_neg (by simp [(List.all_eq_true.mp hb c List.mem_cons_self)]),
        List.append_nil] at htake
      exact htake.symm
  · -- otherwise a blank stands in the name, or the word in the blanks behind it
    rw [List.concat_eq_append, ← List.append_assoc] at hz
    obtain rfl : x = w := List.singleton_inj.mp (List.append_inj_right' hz rfl)
    rw [List.concat_eq_append, List.append_assoc, List.singleton_append] at hrest
    by_cases hle : name.length ≤ z.length
    · obtain ⟨t, -, rfl⟩ := Text.exists_append_of_length_le hrest hle
      exact absurd (by simp) (hnot hb)
    · obtain ⟨t, rfl, -⟩ : ∃ t, name = z ++ [x] ++ t ∧ d :: (word ++ y :: back) = t ++ b := by
        refine Text.exists_append_of_length_le (by simpa using hrest.symm) ?_
        rw [List.length_append, List.length_singleton]
        omega
      exact absurd (hname x (by simp)) (by simp [hx])

theorem not_infix_of_isAllBlank {s : List Char} (h : isAllBlank s = true) : ¬inWord <:+: s := by
  intro hinfix
  have hmem : 'i' ∈ s := List.IsInfix.subset hinfix (by decide)
  exact absurd (List.all_eq_true.mp h 'i' hmem) (by decide)

namespace IsLoopName

variable {name s : List Char} (h : IsLoopName name)

include h

theorem isBlank (c : Char) (hc : c ∈ name) : Text.isBlank c = false := by
  by_contra hblank
  rw [Bool.not_eq_false] at hblank
  exact Bool.false_ne_true ((Expr.isNamePart_of_isBlank hblank).symm.trans (h.part c hc))

theorem trim_eq (hs : IsPadded name s) : trim s = name := by
  obtain ⟨a, b, ha, hb, rfl⟩ := hs
  have hkept {t : List Char} (ht : ∀ c ∈ t, c ∈ name) : t.filter (fun c ↦ !Text.isBlank c) = t :=
    List.filter_eq_self.mpr fun c hc ↦ by rw [h.isBlank c (ht c hc)]; rfl
  rw [Text.trim_between ha hb, ← hkept fun c hc ↦ Text.mem_of_mem_trim hc,
    Text.filter_trim (by simp), hkept fun c hc ↦ hc]

theorem ne_nil_of_isPadded (hs : IsPadded name s) : s ≠ [] := by
  rintro rfl
  exact h.ne_nil (h.trim_eq hs).symm

theorem not_mem (hs : IsPadded name s) {d : Char} (hblank : Text.isBlank d = false)
    (hpart : Expr.isNamePart d = false) : d ∉ s := by
  obtain ⟨a, b, ha, hb, rfl⟩ := hs
  intro hmem
  rw [List.mem_append, List.mem_append] at hmem
  rcases hmem with (hmem | hmem) | hmem
  · exact Bool.false_ne_true (hblank.symm.trans (List.all_eq_true.mp ha d hmem))
  · exact Bool.false_ne_true (hpart.symm.trans (h.part d hmem))
  · exact Bool.false_ne_true (hblank.symm.trans (List.all_eq_true.mp hb d hmem))

private theorem not_infix (hs : IsPadded name s) : ¬inWord <:+: s := by
  intro hinfix
  have hword : ∀ c ∈ ['i', 'n'], Text.isBlank c = false :=
    List.forall_mem_cons.mpr ⟨by decide, List.forall_mem_singleton.mpr (by decide)⟩
  have heq : ['i', 'n'] = name :=
    eq_of_infix_padded hs h.isBlank hword (by decide) (by decide) (by decide) hinfix
  exact h.ne_in heq.symm

end IsLoopName

/-! ## A pair of names -/

def pair (outer first second inner : List Char) : List Char :=
  outer ++ '(' :: (first ++ ',' :: (second ++ ')' :: inner))

private theorem isFirstCut_of_isAllBlank {s : List Char} (h : isAllBlank s = true) (c : List Char) :
    IsFirstCut inWord (s ++ (inWord ++ c)) s c := by
  refine IsFirstCut.append_right ⟨by rw [List.append_nil], fun {a b} heq ↦ ?_⟩ c
  by_contra hlt
  -- an occurrence further on the left would bring the word into the blanks
  obtain ⟨x, hx, -⟩ : ∃ x, s ++ [' '] = a ++ [' ', 'i'] ++ x ∧
      'n' :: ' ' :: b = x ++ ['i', 'n', ' '] := by
    refine Text.exists_append_of_length_le (by simpa [inWord] using heq) ?_
    simp only [List.length_append, List.length_cons, List.length_nil]
    omega
  have hi : 'i' ∈ s ++ [' '] := by
    rw [hx]
    simp
  rcases List.mem_append.mp hi with hi | hi
  · exact absurd (List.all_eq_true.mp h 'i' hi) (by decide)
  · exact absurd hi (by decide)

section Pair

variable {v k outer first second inner : List Char} (hv : IsLoopName v) (hk : IsLoopName k)
  (hfirst : IsPadded v first) (hsecond : IsPadded k second)

include hv hk hfirst hsecond

theorem isFirstCut_pair (houter : isAllBlank outer = true) (hinner : isAllBlank inner = true)
    (c : List Char) :
    IsFirstCut inWord (pair outer first second (inner ++ (inWord ++ c)))
      (pair outer first second inner) c := by
  have hcut := Text.cutAt_eq_some_iff.mpr (isFirstCut_of_isAllBlank hinner c)
  have hne : inWord ≠ [] := List.cons_ne_nil _ _
  rw [← Text.cutAt_eq_some_iff, pair,
    Text.cutAt_append_cons hne (by decide) (not_infix_of_isAllBlank houter),
    Text.cutAt_append_cons hne (by decide) (hv.not_infix hfirst),
    Text.cutAt_append_cons hne (by decide) (hk.not_infix hsecond), hcut]
  rfl

private theorem group?_pair (houter : isAllBlank outer = true) :
    group? (pair outer first second inner) = some (first ++ ',' :: second) := by
  have hopening : ∀ c ∈ outer, (c == '(') = false := fun c hc ↦ by
    rw [beq_eq_false_iff_ne]
    rintro rfl
    exact absurd (List.all_eq_true.mp houter _ hc) (by decide)
  have hclosing : ∀ c ∈ first ++ ',' :: second, (c == ')') = false := fun c hc ↦ by
    rw [beq_eq_false_iff_ne]
    rintro rfl
    rcases List.mem_append.mp hc with hc | hc
    · exact hv.not_mem hfirst (by decide) (by decide) hc
    · rcases List.mem_cons.mp hc with hc | hc
      · exact absurd hc (by decide)
      · exact hk.not_mem hsecond (by decide) (by decide) hc
  obtain ⟨d, rest, rfl⟩ := List.exists_cons_of_ne_nil (hv.ne_nil_of_isPadded hfirst)
  rw [List.cons_append] at hclosing
  have hbehind := Text.cutAtChar_append_stop inner
    (fun c hc ↦ hclosing c (List.mem_cons_of_mem d hc)) (d := ')') rfl
  rw [List.append_assoc, List.cons_append] at hbehind
  rw [group?, pair, Text.cutAtChar_append_stop _ hopening rfl]
  dsimp only [List.cons_append]
  rw [hbehind]
  rfl

private theorem namesOf_pair : namesOf (first ++ ',' :: second) = (first, second) := by
  have hno {name s : List Char} (h : IsLoopName name) (hs : IsPadded name s) : ',' ∉ s :=
    h.not_mem hs (by decide) (by decide)
  rw [namesOf_eq, List.splitOn_append_cons_self_of_not_mem (hno hv hfirst),
    List.splitOn_eq_singleton (hno hk hsecond)]
  rfl

end Pair

/-- **The names of the loop variables.** Without an ` in ` they are `item` and `index`, and
everything is the collection. Otherwise they stand before the first one: in the first group in
parentheses, which is the shortest that begins there, the parts before the first comma and behind
it, or `index` if the second one is missing or blank; without a group, all of the text is the name
of the item. So a pair of names in parentheses, whatever blanks are around them, names the two
entries of the data of a copy. -/
theorem ofForin_names :
    (∀ expression : String, ¬inWord <:+: expression.toList →
      ofForin expression =
        { item := "item", index := "index", collection := Text.trimmed expression }) ∧
    (∀ (expression : String) (left right : List Char),
      IsFirstCut inWord expression.toList left right →
      ((∃ before group behind, IsEnclosed ['('] [')'] left before group behind) →
        ∃ before group behind, IsFirstEnclosed ['('] [')'] left before group behind ∧
          let index := trim ((group.splitOn ',').getD 1 [])
          (ofForin expression).item = String.ofList (trim ((group.splitOn ',').getD 0 [])) ∧
          (ofForin expression).index = if index = [] then "index" else String.ofList index) ∧
      ((¬∃ before group behind, IsEnclosed ['('] [')'] left before group behind) →
        (ofForin expression).item = String.ofList (trim left) ∧
        (ofForin expression).index = "index")) ∧
    ∀ v k : String, IsLoopName v.toList → IsLoopName k.toList →
      ∀ outer first second inner c : List Char, isAllBlank outer = true →
      IsPadded v.toList first → IsPadded k.toList second → isAllBlank inner = true →
      let aliases := ofForin (String.ofList (pair outer first second (inner ++ (inWord ++ c))))
      aliases.item = v ∧ aliases.index = k ∧ ∀ item index, aliases.data item index =
        if v = k then [(k, .number (Number.ofNat index))]
        else [(v, item), (k, .number (Number.ofNat index))] := by
  refine ⟨fun expression h ↦ ofForin_of_not_infix h, fun expression left right hcut ↦ ⟨?_, ?_⟩, ?_⟩
  · rintro ⟨_, _, _, henclosed⟩
    obtain ⟨before, group, behind, hgroup⟩ := Text.exists_isFirstEnclosed henclosed
    refine ⟨before, group, behind, hgroup, ?_⟩
    rw [item_of_cut hcut, index_of_cut hcut, group?_of_isFirstEnclosed hgroup]
    dsimp only [Option.elim_some]
    rw [namesOf_eq]
    simp only [List.isEmpty_iff, true_and]
  · intro hnone
    rw [item_of_cut hcut, index_of_cut hcut, group?_of_not_isEnclosed fun before group behind h ↦
      hnone ⟨before, group, behind, h⟩]
    exact ⟨rfl, rfl⟩
  · intro v k hv hk outer first second inner c houter hfirst hsecond hinner aliases
    -- no name holds the word, so it is first where the pair ends
    have hcut : IsFirstCut inWord
        (String.ofList (pair outer first second (inner ++ (inWord ++ c)))).toList
        (pair outer first second inner) c := by
      rw [String.toList_ofList]
      exact isFirstCut_pair hv hk hfirst hsecond houter hinner c
    have hgroup := @group?_pair _ _ outer first second inner hv hk hfirst hsecond houter
    have hnames := namesOf_pair hv hk hfirst hsecond
    have hitem : aliases.item = v := by
      rw [item_of_cut hcut, hgroup, Option.elim_some, hnames, hv.trim_eq hfirst,
        String.ofList_toList]
    have hindex : aliases.index = k := by
      rw [index_of_cut hcut, hgroup, Option.elim_some, hnames, hk.trim_eq hsecond]
      exact (if_neg (by rw [List.isEmpty_iff]; exact hk.ne_nil)).trans String.ofList_toList
    refine ⟨hitem, hindex, fun item index ↦ ?_⟩
    rw [aliases.data_eq, hitem, hindex]

/-- A collection alone, a group with a blank second part and one part too many, a group that is not
closed, and a pair on two lines. -/
theorem ofForin_names_four :
    (¬inWord <:+: " xs ".toList ∧ ofForin " xs " = { collection := "xs" }) ∧
    (IsFirstCut inWord "(a, , c) in xs".toList "(a, , c)".toList "xs".toList ∧
      IsEnclosed ['('] [')'] "(a, , c)".toList [] "a, , c".toList [] ∧
      (ofForin "(a, , c) in xs").item = "a" ∧ (ofForin "(a, , c) in xs").index = "index") ∧
    (IsFirstCut inWord "(v, k in xs".toList "(v, k".toList "xs".toList ∧
      (¬∃ before group behind, IsEnclosed ['('] [')'] "(v, k".toList before group behind) ∧
      (ofForin "(v, k in xs").item = "(v, k") ∧
    IsLoopName "v".toList ∧ IsLoopName "k".toList ∧ IsPadded "v".toList "v".toList ∧
      IsPadded "k".toList "\n k".toList ∧ isAllBlank [] = true ∧
      (ofForin (String.ofList (pair [] "v".toList "\n k".toList
        (inWord ++ "xs".toList)))).item = "v" ∧
      (ofForin (String.ofList (pair [] "v".toList "\n k".toList (inWord ++ "xs".toList)))).index =
        "k" := by
  obtain ⟨halone, hcut, hpair⟩ := ofForin_names
  have hno : ¬inWord <:+: " xs ".toList := Text.cutAt_eq_none_iff.mp (by decide)
  have hgroup : IsFirstCut inWord "(a, , c) in xs".toList "(a, , c)".toList "xs".toList :=
    Text.cutAt_eq_some_iff.mp (by decide)
  have henclosed : IsEnclosed ['('] [')'] "(a, , c)".toList [] "a, , c".toList [] := by
    constructor <;> decide
  have hopen : IsFirstCut inWord "(v, k in xs".toList "(v, k".toList "xs".toList :=
    Text.cutAt_eq_some_iff.mp (by decide)
  have hunclosed : ¬∃ before group behind,
      IsEnclosed ['('] [')'] "(v, k".toList before group behind := by
    rintro ⟨before, group, behind, h⟩
    exact Text.enclosed?_eq_none_iff.mp (by decide) before group behind h
  have hv : IsLoopName "v".toList := ⟨by decide, List.all_eq_true.mp (by decide), by decide⟩
  have hk : IsLoopName "k".toList := ⟨by decide, List.all_eq_true.mp (by decide), by decide⟩
  have hfirst : IsPadded "v".toList "v".toList := ⟨[], [], rfl, rfl, rfl⟩
  have hsecond : IsPadded "k".toList "\n k".toList := ⟨['\n', ' '], [], rfl, rfl, rfl⟩
  obtain ⟨before, group, behind, hfound, hitem, hindex⟩ :=
    (hcut _ _ _ hgroup).1 ⟨_, _, _, henclosed⟩
  have hsame : Text.enclosed? ['('] [')'] "(a, , c)".toList = some ([], "a, , c".toList, []) := by
    decide
  cases hsame.symm.trans (Text.enclosed?_eq_some_iff.mpr hfound)
  obtain ⟨hpairItem, hpairIndex, -⟩ := hpair _ _ hv hk [] _ _ [] "xs".toList rfl hfirst hsecond rfl
  refine ⟨⟨hno, (halone _ hno).trans (by decide)⟩, ⟨hgroup, henclosed, hitem.trans (by decide),
    hindex.trans (by decide)⟩,
    ⟨hopen, hunclosed, ((hcut _ _ _ hopen).2 hunclosed).1.trans (by decide)⟩,
    hv, hk, hfirst, hsecond, rfl, hpairItem, hpairIndex⟩

end HtmlTemplate.Aliases

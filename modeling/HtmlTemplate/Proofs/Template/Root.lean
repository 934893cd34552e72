import HtmlTemplate.Proofs.Template.Repetition
import HtmlTemplate.Proofs.Template.Values

/-!
# The root of a template

A template is a node, and so is its view, but any number of nodes can take the place of a node. The
view of a root that is no fragment is the one node that took its place; where these are none or
many, or the root is repeated, it is a fragment of them. So it is the view of a fragment that holds
nothing but the root, apart from a fragment around it.

This rests on the fact that a node which is no fragment is compiled to none either
(`toList_of_compileNode`): otherwise the view of a root could be mistaken for the fragment around
it.

## How many nodes a root leaves

A root that is not repeated leaves exactly one node, and a repeated one leaves as many as there are
items, or a placeholder. Still the view of a repeated root is a fragment even if there is one copy,
so that its form does not depend on the number of items.
-/

namespace HtmlTemplate

variable {options : Options} {data : Data}

/-- The view of a root by taking the last of its nodes off their list. It is the view if it was
alone and the root is not repeated, and otherwise it is put back. -/
def unwrapLast (expands : Bool) (ns : List Node) : Node :=
  match ns.getLast? with
  | some last =>
    if !expands && ns.dropLast.isEmpty then last else .fragment (ns.dropLast ++ [last])
  | none => .fragment ns

/-- Has a repeating directive priority on the node? -/
def Node.IsRepeated (options : Options) (n : Node) : Prop :=
  ∃ e m d, n = .element e ∧ options.priorityOn? e = some m ∧ Directive.ofName? m.name = some d ∧
    d.isRepeating = true

theorem expandsRoot_iff {root : Node} :
    expandsRoot options root = true ↔ root.IsRepeated options := by
  constructor
  · intro h
    unfold expandsRoot at h
    split at h
    · rename_i e
      split at h
      · rename_i m hm
        obtain ⟨d, hd, hrepeating⟩ := (Option.any_eq_true _ _).mp h
        exact ⟨e, m, d, rfl, hm, hd, hrepeating⟩
      · exact nomatch h
    · exact nomatch h
  · rintro ⟨e, m, d, rfl, hm, hd, hrepeating⟩
    simp only [expandsRoot, hm, hd, Option.any_some, hrepeating]

/-! ## Joining the nodes of a root -/

theorem Node.toList_eq_singleton_iff {n : Node} : n.toList = [n] ↔ n.kind ≠ .fragment := by
  cases n with
  | fragment cs =>
    refine iff_of_false (fun h ↦ ?_) fun h ↦ h rfl
    have hsize := congrArg sizeOf h
    simp only [toList, List.cons.sizeOf_spec, fragment.sizeOf_spec, List.nil.sizeOf_spec] at hsize
    omega
  | element e => exact iff_of_true rfl (by simp [kind])
  | text s => exact iff_of_true rfl (by simp [kind])
  | comment s => exact iff_of_true rfl (by simp [kind])

theorem joinRoot_eq_unwrapLast (expands : Bool) (ns : List Node) :
    joinRoot expands ns = unwrapLast expands ns := by
  rcases List.eq_nil_or_concat ns with rfl | ⟨front, last, rfl⟩
  · rfl
  · rw [unwrapLast, List.concat_eq_append, List.getLast?_concat, List.dropLast_concat]
    rcases front with _ | ⟨n, front⟩
    · cases expands <;> rfl
    · simp only [List.isEmpty_cons, Bool.and_false, if_neg Bool.false_ne_true]
      rcases front with _ | ⟨m, front⟩ <;> rfl

section Join

variable {ns : List Node} (expands : Bool) (hns : ∀ n ∈ ns, n.toList = [n])

include hns

theorem toList_joinRoot : (joinRoot expands ns).toList = ns := by
  unfold joinRoot
  split
  · rename_i n
    cases expands
    · exact hns n List.mem_cons_self
    · rfl
  · rfl

private theorem kind_joinRoot_iff :
    (joinRoot expands ns).kind = .fragment ↔ expands = true ∨ ns.length ≠ 1 := by
  unfold joinRoot
  split
  · rename_i n
    cases expands
    · exact iff_of_false (Node.toList_eq_singleton_iff.mp (hns n List.mem_cons_self)) (by simp)
    · exact iff_of_true rfl (Or.inl rfl)
  · rename_i hone
    refine iff_of_true rfl (Or.inr fun hlength ↦ ?_)
    obtain ⟨n, rfl⟩ := List.length_eq_one_iff.mp hlength
    exact hone n rfl

end Join

/-! ## Compiling a root -/

/-- A node that is no fragment is compiled to none. -/
theorem toList_of_compileNode {n : Node} {ns : List Node} (hn : n.kind ≠ .fragment)
    (h : compileNode options data n = .ok ns) : ∀ m ∈ ns, m.toList = [m] := by
  intro m hm
  cases n with
  | element e => exact toList_of_yields ⟨ns, h, hm⟩
  | text s =>
    rw [compileNode] at h
    obtain ⟨t, -, rfl⟩ := map_eq_ok_iff.mp h
    rw [List.mem_singleton.mp hm]
    rfl
  | comment s =>
    rw [compileNode] at h
    rw [← Except.ok.inj h] at hm
    rw [List.mem_singleton.mp hm]
    rfl
  | fragment cs => exact absurd rfl hn

private theorem compile_of_kind {root : Node} (hroot : root.kind ≠ .fragment) :
    compile options data root =
      (compileNode options data root).map (joinRoot (expandsRoot options root)) := by
  rw [compile, compileNodes_singleton]
  rintro cs rfl
  exact hroot rfl

/-- **A fragment around the root makes no difference.** A root that is no fragment, and the fragment
of that root alone, fail with the same error, or their views stand for the same nodes. The view of
the root is a fragment if a repeating directive has priority on it, however many copies there are or
whatever else stands in their place, and otherwise only if not exactly one node took the place of
the root. Taking the last node off the list of these and putting it back comes to the same. -/
theorem compile_fragment_singleton (options : Options) (data : Data) {root : Node}
    (hroot : root.kind ≠ .fragment) :
    (compile options data root).map Node.toList =
      (compile options data (.fragment [root])).map Node.toList ∧
    (∀ view, compile options data root = .ok view →
      (view.kind = .fragment ↔ root.IsRepeated options ∨ view.toList.length ≠ 1)) ∧
    compile options data root =
      (compileNodes options data [root]).map (unwrapLast (expandsRoot options root)) := by
  have hwrapped : compile options data (.fragment [root]) =
      (compileNode options data root).map .fragment := by
    rw [compile, compileNodes_singleton]
  refine ⟨?_, ?_, ?_⟩
  · rw [compile_of_kind hroot, hwrapped]
    rcases hns : compileNode options data root with err | ns
    · rfl
    · exact congrArg Except.ok (toList_joinRoot _ (toList_of_compileNode hroot hns))
  · intro view h
    rw [compile_of_kind hroot] at h
    obtain ⟨ns, hns, rfl⟩ := map_eq_ok_iff.mp h
    have hlist := toList_of_compileNode hroot hns
    rw [kind_joinRoot_iff _ hlist, toList_joinRoot _ hlist, expandsRoot_iff]
  · rw [compile_of_kind hroot, compileNodes_singleton,
      funext (joinRoot_eq_unwrapLast (expandsRoot options root))]

/-- An entry that is repeated once: its view is a fragment all the same. -/
theorem compile_fragment_singleton_entry :
    let entry : Node := .element ⟨"li", [⟨":each", "xs"⟩], []⟩
    let data : Data := [("xs", .array [.null])]
    entry.kind ≠ .fragment ∧ entry.IsRepeated {} ∧
      (compile {} data (.fragment [entry])).map Node.toList = .ok [.element ⟨"li", [], []⟩] ∧
      ∃ view, compile {} data entry = .ok view ∧ view.kind = .fragment := by
  intro entry data
  have hroot : entry.kind ≠ .fragment := by simp [entry, Node.kind]
  have hm : ({} : Options).priorityOn? ⟨"li", [⟨":each", "xs"⟩], []⟩ =
      some ⟨"each", ":each", "xs"⟩ := by decide
  have hd : Directive.ofName? "each" = some .each := by decide
  have hvalue : evaluate .each data (Aliases.ofDirective .each "xs").collection =
      .ok (.array [.null]) :=
    evaluate_name .each _ rfl rfl rfl fun _ ↦ rfl
  have hcopy (data : Data) : compileNodes {} data
      [.element ((⟨"li", [⟨":each", "xs"⟩], []⟩ : Element).eraseAttribute ":each")] =
      .ok [.element ⟨"li", [], []⟩] := by
    have herase : (⟨"li", [⟨":each", "xs"⟩], []⟩ : Element).eraseAttribute ":each" =
      ⟨"li", [], []⟩ := rfl
    rw [compileNodes_singleton, herase, compileNode_of_stays rfl, compileNodes_nil]
    rfl
  have hrepeated : entry.IsRepeated {} := ⟨_, _, .each, rfl, hm, hd, rfl⟩
  have hnodes : compileNodes {} data [entry] = .ok [.element ⟨"li", [], []⟩] := by
    rw [compileNodes_of_collection hm hd rfl, hvalue]
    simp only [List.zipIdx_singleton, List.mapM_cons, List.mapM_nil, hcopy]
    rfl
  obtain ⟨hsame, hkind, hview⟩ := compile_fragment_singleton {} data hroot
  rw [hnodes] at hview
  refine ⟨hroot, hrepeated, ?_, _, hview, (hkind _ hview).mpr (.inl hrepeated)⟩
  rw [← hsame, hview]
  rfl

end HtmlTemplate

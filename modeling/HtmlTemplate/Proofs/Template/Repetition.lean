import HtmlTemplate.Proofs.Template.Outcomes
import HtmlTemplate.Proofs.Template.Values

/-!
# The law of repetition

An element on which a repeating directive has priority is compiled to its copies, one for each item
of the collection, without anything else of it being looked at before. A copy is the element without
the attribute of the directive, compiled on data that holds the item and its index and nothing else.

`repeatInPlace` does the same where the element stands, as an editor of a document would: it puts a
placeholder there and keeps the element as a template, compiles the template for one item after
another and appends what comes out to a fragment, and puts that in the place of the placeholder.

## The invariant

After some items, the fragment holds what their copies are compiled to, one behind another
(`appendCopies_fragment`). Appending a fragment would append its children, but a copy is compiled to
no fragment (`toList_of_yields`).

## What follows from the law

A copy sees the item and its index and nothing of the data around. So two data that have the same
collection give the same copies, and where the collection is empty no other expression of the
element is evaluated, so that none of them can fail.
-/

namespace HtmlTemplate

variable {options : Options} {data : Data}

/-! ## What an element is compiled to -/

/-- An element is compiled to no fragment. -/
theorem toList_of_yields {e : Element} {m : Node} (h : (Node.element e).Yields options data m) :
    m.toList = [m] := by
  refine Node.Yields.induction (motive := fun _ n m ↦ ∀ e, n = .element e → m.toList = [m])
    ?text ?comment ?fragment ?inside ?closed ?copy ?placeholder h e rfl
  case text => exact fun _ _ ↦ nofun
  case comment => exact fun _ _ ↦ nofun
  case fragment => exact fun _ _ ↦ nofun
  case inside => exact fun _ _ _ _ _ ↦ rfl
  case closed => exact fun _ _ _ ↦ rfl
  case copy => exact fun {_ _ t _ _ _ _ _ _} _ _ ih _ _ ↦ ih t rfl
  case placeholder => exact fun _ _ _ ↦ rfl

/-- The two entries of a copy's data; the index replaces the item if they have one name. -/
theorem Aliases.data_eq (aliases : Aliases) (item : Value) (index : Nat) :
    aliases.data item index =
      if aliases.item = aliases.index then [(aliases.index, .number (Number.ofNat index))]
      else [(aliases.item, item), (aliases.index, .number (Number.ofNat index))] := by
  rw [Aliases.data, Record.insert, Record.insert]
  split_ifs with h
  · rw [h]
  · rw [Record.insert]

/-! ## Repeating in place -/

def appendCopies (options : Options) (aliases : Aliases) (template : Element) (made : Node) :
    List (Value × Nat) → Except CompileError Node
  | [] => .ok made
  | (item, index) :: items => do
    let ns ← compileNodes options (aliases.data item index) [.element template]
    appendCopies options aliases template (ns.foldl Node.append made) items

/-- Repeats the template at an index of a list, where a placeholder is put first. Gives the list
afterwards, and how many nodes of it take the place of the one at the index. -/
def repeatInPlace (options : Options) (data : Data) (d : Directive) (expression : String)
    (template : Element) (ns : List Node) (i : Nat) : Except CompileError (List Node × Nat) :=
  let marked := ns.set i (placeholder d)
  let aliases := Aliases.ofDirective d expression
  match evaluate d data aliases.collection with
  | .error err => .error err
  | .ok (.array items) =>
    (appendCopies options aliases template (.fragment []) items.zipIdx).map fun copies ↦
      (Node.replaceAt marked i copies, copies.toList.length)
  | .ok .undefined | .ok .null => .ok (Node.replaceAt marked i (.fragment []), 0)
  | .ok _ => .ok (marked, 1)

private theorem foldl_append_fragment {ns : List Node} (done : List Node)
    (h : ∀ m ∈ ns, m.toList = [m]) :
    ns.foldl Node.append (.fragment done) = .fragment (done ++ ns) := by
  induction ns generalizing done with
  | nil => rw [List.foldl_nil, List.append_nil]
  | cons m ns ih =>
    rw [List.foldl_cons, Node.append, h m List.mem_cons_self, Node.withChildren, Node.children,
      ih _ fun m' hm ↦ h m' (List.mem_cons_of_mem m hm), List.append_assoc, List.singleton_append]

theorem appendCopies_fragment (aliases : Aliases) (template : Element) (items : List (Value × Nat))
    (done : List Node) :
    appendCopies options aliases template (.fragment done) items =
      (items.mapM fun x ↦ compileNodes options (aliases.data x.1 x.2) [.element template]).map
        fun outs : List (List Node) ↦ Node.fragment (done ++ outs.flatten) := by
  induction items generalizing done with
  | nil =>
    rw [appendCopies, List.mapM_nil]
    exact congrArg (fun ns ↦ Except.ok (Node.fragment ns)) (List.append_nil done).symm
  | cons x items ih =>
    obtain ⟨item, index⟩ := x
    rw [appendCopies, List.mapM_cons]
    dsimp only
    rcases hout : compileNodes options (aliases.data item index) [.element template] with err | ns
    · rfl
    · have hlist : ∀ m ∈ ns, m.toList = [m] := by
        intro m hm
        rw [compileNodes_singleton] at hout
        exact toList_of_yields ⟨ns, hout, hm⟩
      dsimp only [bind, Except.bind]
      rw [foldl_append_fragment done hlist, ih]
      rcases items.mapM (fun x : Value × Nat ↦
        compileNodes options (aliases.data x.1 x.2) [.element template]) with err | outs
      · rfl
      · exact congrArg (fun ns ↦ Except.ok (Node.fragment ns))
          (List.append_assoc done ns outs.flatten)

theorem replaceAt_set {ns : List Node} (i : Nat) (m r : Node) :
    Node.replaceAt (ns.set i m) i r = Node.replaceAt ns i r := by
  rw [Node.replaceAt, Node.replaceAt, List.take_set_of_le (Nat.le_refl i),
    List.drop_set_of_lt (Nat.lt_succ_self i)]

theorem set_eq_replaceAt {ns : List Node} {i : Nat} (m : Node) (h : i < ns.length) :
    ns.set i m = Node.replaceAt ns i (.fragment [m]) := by
  rw [List.set_eq_take_append_cons_drop, if_pos h, Node.replaceAt, Node.toList, List.append_assoc,
    List.singleton_append]

/-! ## The law -/

section Law

variable {e : Element} {m : PriorityMatch} {d : Directive} (hm : options.priorityOn? e = some m)
  (hd : Directive.ofName? m.name = some d) (hrepeating : d.isRepeating = true)

include hm hd hrepeating

private theorem bindElement_of_repeating :
    bindElement options data e =
      (evaluate d data (Aliases.ofDirective d m.expression).collection).map fun v ↦
        .repeats (e.eraseAttribute m.key) d (Aliases.ofDirective d m.expression) v := by
  rw [bindElement, hm]
  dsimp only
  rw [bindMarked_of_some _ hd, if_pos hrepeating]
  rcases evaluate d data (Aliases.ofDirective d m.expression).collection with err | v <;> rfl

/-- The copies, one for each item of the collection. -/
theorem compileNodes_of_collection :
    compileNodes options data [.element e] =
      match evaluate d data (Aliases.ofDirective d m.expression).collection with
      | .error err => .error err
      | .ok .undefined | .ok .null => .ok []
      | .ok (.array items) =>
        (items.zipIdx.mapM fun (item, index) ↦
          compileNodes options ((Aliases.ofDirective d m.expression).data item index)
            [.element (e.eraseAttribute m.key)]).map List.flatten
      | .ok _ => .ok [.comment (":" ++ d.name)] := by
  have hbind := @bindElement_of_repeating options data e m d hm hd hrepeating
  simp only [compileNodes_singleton]
  rw [compileNode_element, hbind]
  rcases evaluate d data (Aliases.ofDirective d m.expression).collection with err | v
  · rfl
  · cases v <;> rfl

theorem repeatInPlace_of_repeating {ns : List Node} {i : Nat} (hi : i < ns.length) :
    repeatInPlace options data d m.expression (e.eraseAttribute m.key) ns i =
      (compileNodes options data [.element e]).map fun outcome ↦
        (Node.replaceAt ns i (.fragment outcome), outcome.length) := by
  rw [compileNodes_of_collection hm hd hrepeating, repeatInPlace]
  cases hv : evaluate d data (Aliases.ofDirective d m.expression).collection with
  | error err => rfl
  | ok v =>
    cases v with
    | undefined => exact congrArg (fun ms ↦ Except.ok (ms, 0)) (replaceAt_set i _ _)
    | null => exact congrArg (fun ms ↦ Except.ok (ms, 0)) (replaceAt_set i _ _)
    | array items =>
      dsimp only
      rw [appendCopies_fragment]
      rcases items.zipIdx.mapM (fun x : Value × Nat ↦
        compileNodes options ((Aliases.ofDirective d m.expression).data x.1 x.2)
          [.element (e.eraseAttribute m.key)]) with err | outs
      · rfl
      · exact congrArg (fun ms ↦ Except.ok (ms, outs.flatten.length)) (replaceAt_set i _ _)
    | _ => exact congrArg (fun ms ↦ Except.ok (ms, 1)) (set_eq_replaceAt _ hi)

end Law

/-- **The law of repetition.** An element on which a repeating directive has priority is compiled to
nothing for undefined or null, to a comment for any other value that is no array, and for an array
to its copies, in the order of the items, up to the first that fails. Nothing but the collection is
evaluated on the data; so it alone decides, and for an empty one nothing else of the element
matters. Repeating in place comes to the same. -/
theorem compileNodes_of_repeating {e : Element} {m : PriorityMatch} {d : Directive}
    (hm : options.priorityOn? e = some m) (hd : Directive.ofName? m.name = some d)
    (hrepeating : d.isRepeating = true) :
    let aliases := Aliases.ofDirective d m.expression
    let template := e.eraseAttribute m.key
    (∀ data, compileNodes options data [.element e] =
      match evaluate d data aliases.collection with
      | .error err => .error err
      | .ok .undefined | .ok .null => .ok []
      | .ok (.array items) =>
        (items.zipIdx.mapM fun (item, index) ↦
          compileNodes options (aliases.data item index) [.element template]).map List.flatten
      | .ok _ => .ok [.comment (":" ++ d.name)]) ∧
    (∀ item index, aliases.data item index =
      if aliases.item = aliases.index then [(aliases.index, .number (Number.ofNat index))]
      else [(aliases.item, item), (aliases.index, .number (Number.ofNat index))]) ∧
    (∀ data data', evaluate d data aliases.collection = evaluate d data' aliases.collection →
      compileNodes options data [.element e] = compileNodes options data' [.element e]) ∧
    (∀ data, evaluate d data aliases.collection = .ok (.array []) →
      ∀ f, options.priorityOn? f = some m → compileNodes options data [.element f] = .ok []) ∧
    ∀ data ns i, i < ns.length → repeatInPlace options data d m.expression template ns i =
      (compileNodes options data [.element e]).map fun outcome ↦
        (Node.replaceAt ns i (.fragment outcome), outcome.length) := by
  intro aliases template
  have hlaw (data : Data) := @compileNodes_of_collection options data e m d hm hd hrepeating
  refine ⟨hlaw, aliases.data_eq, ?_, ?_, ?_⟩
  · intro data data' hv
    rw [hlaw, hlaw, hv]
  · intro data hv f hf
    rw [compileNodes_of_collection hf hd hrepeating, hv]
    rfl
  · intro data ns i hi
    exact repeatInPlace_of_repeating hm hd hrepeating hi

/-- An entry is repeated for two items; for none, not even an expression that cannot be read
matters. -/
theorem compileNodes_of_repeating_entries :
    let entry : Element := ⟨"li", [⟨":each", "xs"⟩], []⟩
    let m : PriorityMatch := ⟨"each", ":each", "xs"⟩
    ({} : Options).priorityOn? entry = some m ∧ Directive.ofName? m.name = some .each ∧
      Directive.isRepeating .each = true ∧
      compileNodes {} [("xs", .array [.null, .null])] [.element entry] =
        .ok [.element ⟨"li", [], []⟩, .element ⟨"li", [], []⟩] ∧
      compileNodes {} [("xs", .array [])] [.element ⟨"li", [⟨":text", ")"⟩, ⟨":each", "xs"⟩], []⟩] =
        .ok [] := by
  intro entry m
  have hm : ({} : Options).priorityOn? entry = some m := by decide
  have hd : Directive.ofName? m.name = some .each := by decide
  obtain ⟨hlaw, -, -, hempty, -⟩ := compileNodes_of_repeating hm hd rfl
  have hcollection : (Aliases.ofDirective .each m.expression).collection = "xs" := by decide
  have hvalue (items : List Value) :
      evaluate .each [("xs", .array items)] (Aliases.ofDirective .each m.expression).collection =
        .ok (.array items) := by
    rw [hcollection]
    exact evaluate_name .each _ rfl rfl rfl fun _ ↦ rfl
  have hcopy (data : Data) : compileNodes {} data [.element (entry.eraseAttribute m.key)] =
      .ok [.element ⟨"li", [], []⟩] := by
    have herase : entry.eraseAttribute m.key = ⟨"li", [], []⟩ := rfl
    rw [compileNodes_singleton, herase, compileNode_of_stays rfl, compileNodes_nil]
    rfl
  refine ⟨hm, hd, rfl, ?_, hempty _ (hvalue []) _ (by decide)⟩
  rw [hlaw, hvalue]
  simp only [List.zipIdx_cons, List.zipIdx_nil, List.mapM_cons, List.mapM_nil, hcopy]
  rfl

end HtmlTemplate

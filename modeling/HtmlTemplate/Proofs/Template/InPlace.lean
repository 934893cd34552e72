import HtmlTemplate.Proofs.Template.Clones
import HtmlTemplate.Proofs.Template.Repetition
import HtmlTemplate.Proofs.Template.Static

/-!
# Compiling in place

A program that edits trees compiles a list of nodes where it stands: it goes over the list by an
index, puts what a node is compiled to in its place, and goes on behind that. For the children of a
node, and for the clone that a repeated element is compiled from for every item, it calls itself.
Nothing in the form of such a program says that it comes to an end, since a list can grow while the
walk is on it.

Here the rounds and calls that are behind one another are counted, and the walk breaks off when they
are more than allowed.

## What decreases

A round leaves one node less to be visited, however many nodes it puts into the list
(`walkAt_moves`). A call is for the children of the node that is visited, or for a clone (`Nested`),
which has fewer attributes that are directives, and weighs less than its element. So a list of nodes
needs no more rounds and calls than it weighs (`walkChildren_eq`), whatever the data: an item of a
collection adds nothing to what its copy needs.

## Siblings

A round reports how many nodes occupy the place of the one that it visited, and the walk goes on by
that many. That no sibling is skipped or visited twice rests on these counts, which are given by the
directive, handed on by the element and used by the walk. They are right because what takes the
place of a node is spliced in as one list, of which the count is the length
(`exists_spliced_of_walkAt`).
-/

namespace HtmlTemplate

/-- Why compiling in place breaks off. -/
inductive Halt where
  /-- A directive fails. -/
  | failed (err : CompileError)
  /-- There are more rounds and calls behind one another than allowed. -/
  | rounds

def Halt.ofExcept {α : Type} (outcome : Except CompileError α) : Except Halt α :=
  outcome.mapError .failed

theorem Halt.map_ofExcept {α β : Type} (outcome : Except CompileError α) (f : α → β) :
    (ofExcept outcome).map f = ofExcept (outcome.map f) := by
  rcases outcome with err | a <;> rfl

section Walk

variable (options : Options)
variable (inside : Data → List Node → Except Halt (List Node)) (data : Data)

/-- Compiles the clone for one item after another, and appends what comes out to a fragment. -/
def copyInPlace (aliases : Aliases) (template : Element) (made : Node) :
    List (Value × Nat) → Except Halt Node
  | [] => .ok made
  | (item, index) :: items => do
    let ns ← inside (aliases.data item index) [.element template]
    copyInPlace aliases template (ns.foldl Node.append made) items

def walkElement (ns : List Node) (i : Nat) (e : Element) : Except Halt (List Node × Nat) := do
  match ← Halt.ofExcept (bindElement options data e) with
  | .stays f true =>
    let cs ← inside data f.children
    return (ns.set i (.element { f with children := cs }), 1)
  | .stays f false => return (ns.set i (.element f), 1)
  | .repeats t d aliases v =>
    let ns := ns.set i (placeholder d)
    match v with
    | .array items =>
      let copies ← copyInPlace inside aliases t (.fragment []) items.zipIdx
      return (Node.replaceAt ns i copies, copies.toList.length)
    | .undefined | .null => return (Node.replaceAt ns i (.fragment []), 0)
    | _ => return (ns, 1)

/-- Compiles the node at an index of a list. Gives the list afterwards, and how many nodes of it
take the place of the one at the index. -/
def walkAt (ns : List Node) (i : Nat) : Node → Except Halt (List Node × Nat)
  | .element e => walkElement options inside data ns i e
  | .text s => do
    let t ← Halt.ofExcept (compileText data s)
    return (ns.set i (.text t), 1)
  | .fragment cs => do
    let cs ← inside data cs
    return (ns.set i (.fragment cs), 1)
  | .comment _ => return (ns, 1)

end Walk

/-- Compiles the nodes of a list from an index on, with so many rounds and calls behind one another
at most. -/
def walkChildren (options : Options) : Nat → Data → List Node → Nat → Except Halt (List Node)
  | 0, _, _, _ => .error .rounds
  | n + 1, data, ns, i =>
    match ns[i]? with
    | none => .ok ns
    | some m => do
      let (ns, occupied) ←
        walkAt options (fun data ns ↦ walkChildren options n data ns 0) data ns i m
      walkChildren options n data ns (i + occupied)

/-- The view of a template on data, compiled in place. -/
def compileInPlace (options : Options) (bound : Nat) (data : Data) (template : Node) :
    Except Halt Node :=
  match template with
  | .fragment cs => (walkChildren options bound data cs 0).map .fragment
  | root => (walkChildren options bound data [root] 0).map (joinRoot (expandsRoot options root))

/-! ## What a round asks for

The reader of inner lists is a parameter of a round, so that what a round asks of it can be said
without the walk. -/

/-- The lists that are compiled by a call while a node is visited: its children, and, for a repeated
element, its clone. -/
inductive Nested (options : Options) : Node → List Node → Prop
  | fragment (cs : List Node) : Nested options (.fragment cs) cs
  | children (e : Element) : Nested options (.element e) e.children
  | clone {data : Data} {e t : Element} {d : Directive} {aliases : Aliases} {v : Value}
      (h : bindElement options data e = .ok (.repeats t d aliases v)) :
      Nested options (.element e) [.element t]

section Calls

variable {options : Options} {inside inside' : Data → List Node → Except Halt (List Node)}

theorem Nested.weightAll_lt {n : Node} {cs : List Node} (h : Nested options n cs) :
    Node.weightAll cs < n.weight := by
  rcases h with cs | e | ⟨h⟩
  · rw [Node.weight]
    omega
  · rw [Node.weight, Element.weight_eq]
    omega
  · rw [Node.weightAll, Node.weightAll, Node.weight, Nat.add_zero]
    exact weight_of_repeats h

private theorem copyInPlace_congr {t : Element} (aliases : Aliases) (made : Node)
    (items : List (Value × Nat))
    (h : ∀ data, inside data [.element t] = inside' data [.element t]) :
    copyInPlace inside aliases t made items = copyInPlace inside' aliases t made items := by
  induction items generalizing made with
  | nil => rfl
  | cons x items ih =>
    obtain ⟨item, index⟩ := x
    rw [copyInPlace, copyInPlace, h]
    rcases inside' (aliases.data item index) [.element t] with err | ns
    · rfl
    · exact ih (ns.foldl Node.append made)

/-- **A round calls for nothing but the children of the node that is visited, and its clone.** -/
theorem walkAt_congr (data : Data) (ns : List Node) (i : Nat) (n : Node)
    (h : ∀ data cs, Nested options n cs → inside data cs = inside' data cs) :
    walkAt options inside data ns i n = walkAt options inside' data ns i n := by
  cases n with
  | element e =>
    rw [walkAt, walkAt, walkElement, walkElement]
    rcases hb : bindElement options data e with err | ⟨f, _ | _⟩ | ⟨t, d, aliases, v⟩
    · rfl
    · rfl
    · have hchildren : f.children = e.children := (rewrites_of_stays hb).kept rfl
      have hcall := h data e.children (.children e)
      simp only [Halt.ofExcept, Except.mapError, bind, Except.bind]
      rw [hchildren, hcall]
    · have hclone (data : Data) : inside data [.element t] = inside' data [.element t] :=
        h data [.element t] (.clone hb)
      cases v with
      | array items =>
        simp only [Halt.ofExcept, Except.mapError, bind, Except.bind]
        rw [copyInPlace_congr aliases (.fragment []) items.zipIdx hclone]
      | _ => rfl
  | text s => rfl
  | fragment cs => rw [walkAt, walkAt, h data cs (.fragment cs)]
  | comment s => rfl

end Calls

/-! ## What a round does -/

def Spliced (ns : List Node) (i : Nat) (outcome : List Node) : List Node × Nat :=
  (Node.replaceAt ns i (.fragment outcome), outcome.length)

theorem set_eq_spliced {ns : List Node} {i : Nat} (m : Node) (hi : i < ns.length) :
    (ns.set i m, 1) = Spliced ns i [m] := by
  rw [set_eq_replaceAt m hi]
  rfl

theorem set_eq_spliced_self {ns : List Node} {i : Nat} {n : Node} (hn : ns[i]? = some n) :
    (ns, 1) = Spliced ns i [n] := by
  obtain ⟨hi, hget⟩ := List.getElem?_eq_some_iff.mp hn
  rw [← set_eq_spliced n hi, ← hget, List.set_getElem_self]

section Round

variable {options : Options} {inside : Data → List Node → Except Halt (List Node)} {data : Data}
  {ns ns' : List Node} {i occupied : Nat}

theorem exists_spliced_of_walkElement {e : Element} (hi : i < ns.length)
    (h : walkElement options inside data ns i e = .ok (ns', occupied)) :
    ∃ outcome, (ns', occupied) = Spliced ns i outcome := by
  rw [walkElement] at h
  obtain ⟨b, -, h⟩ := bind_eq_ok_iff.mp h
  rcases b with ⟨f, _ | _⟩ | ⟨t, d, aliases, v⟩
  · exact ⟨_, (Except.ok.inj h).symm.trans (set_eq_spliced _ hi)⟩
  · obtain ⟨cs, -, h⟩ := bind_eq_ok_iff.mp h
    exact ⟨_, (Except.ok.inj h).symm.trans (set_eq_spliced _ hi)⟩
  · have hmarked (m : Node) :
        Node.replaceAt (ns.set i (placeholder d)) i m = Node.replaceAt ns i m :=
      replaceAt_set i _ m
    cases v with
    | undefined | null => exact ⟨[], (Except.ok.inj h).symm.trans (congrArg (·, 0) (hmarked _))⟩
    | array items =>
      obtain ⟨copies, -, h⟩ := bind_eq_ok_iff.mp h
      refine ⟨copies.toList, (Except.ok.inj h).symm.trans ?_⟩
      exact congrArg (·, copies.toList.length) (hmarked copies)
    | _ => exact ⟨_, (Except.ok.inj h).symm.trans (set_eq_spliced _ hi)⟩

private theorem exists_spliced_of_walkAt {n : Node} (hn : ns[i]? = some n)
    (h : walkAt options inside data ns i n = .ok (ns', occupied)) :
    ∃ outcome, (ns', occupied) = Spliced ns i outcome := by
  have hi := (List.getElem?_eq_some_iff.mp hn).1
  cases n with
  | element e => exact exists_spliced_of_walkElement hi h
  | text s =>
    rw [walkAt] at h
    obtain ⟨t, -, h⟩ := bind_eq_ok_iff.mp h
    exact ⟨_, (Except.ok.inj h).symm.trans (set_eq_spliced _ hi)⟩
  | fragment cs =>
    rw [walkAt] at h
    obtain ⟨cs, -, h⟩ := bind_eq_ok_iff.mp h
    exact ⟨_, (Except.ok.inj h).symm.trans (set_eq_spliced _ hi)⟩
  | comment s => exact ⟨_, (Except.ok.inj h).symm.trans (set_eq_spliced_self hn)⟩

/-- **A round moves on.** The nodes before the index stay, and behind what took the place of the
node stand the nodes that were still to be visited, which are one less. -/
theorem walkAt_moves {n : Node} (hn : ns[i]? = some n)
    (h : walkAt options inside data ns i n = .ok (ns', occupied)) :
    ns'.take i = ns.take i ∧ ns'.drop (i + occupied) = ns.drop (i + 1) ∧
      ns'.length - (i + occupied) < ns.length - i := by
  obtain ⟨outcome, hspliced⟩ := exists_spliced_of_walkAt hn h
  obtain ⟨rfl, rfl⟩ := Prod.mk.inj hspliced
  have hi := (List.getElem?_eq_some_iff.mp hn).1
  have htake : (ns.take i).length = i := List.length_take_of_le (Nat.le_of_lt hi)
  rw [Node.replaceAt, Node.toList]
  refine ⟨?_, ?_, ?_⟩
  · rw [List.append_assoc, List.take_left' htake]
  · rw [List.drop_left']
    rw [List.length_append, htake]
  · rw [List.length_append, List.length_append, htake, List.length_drop]
    omega

end Round

/-! ## Enough rounds

With a bound above its weight, the walk of a list is what compiling gives. The induction is on the
bound, and every call has a smaller one for a lighter list. -/

section Enough

variable {options : Options} {data : Data}

def outcomeInside (options : Options) (data : Data) (ns : List Node) : Except Halt (List Node) :=
  Halt.ofExcept (compileNodes options data ns)

private theorem copyInPlace_outcomeInside (aliases : Aliases) (t : Element) (made : Node)
    (items : List (Value × Nat)) :
    copyInPlace (outcomeInside options) aliases t made items =
      Halt.ofExcept (appendCopies options aliases t made items) := by
  induction items generalizing made with
  | nil => rfl
  | cons x items ih =>
    obtain ⟨item, index⟩ := x
    rw [copyInPlace, appendCopies, outcomeInside]
    rcases compileNodes options (aliases.data item index) [.element t] with err | ns
    · rfl
    · exact ih (ns.foldl Node.append made)

private theorem walkElement_outcomeInside {ns : List Node} {i : Nat} (e : Element)
    (hi : i < ns.length) :
    walkElement options (outcomeInside options) data ns i e =
      (Halt.ofExcept (compileNode options data (.element e))).map (Spliced ns i) := by
  rw [walkElement, compileNode_element]
  rcases hb : bindElement options data e with err | ⟨f, _ | _⟩ | ⟨t, d, aliases, v⟩
  · rfl
  · exact congrArg Except.ok (set_eq_spliced _ hi)
  · have hchildren : f.children = e.children := (rewrites_of_stays hb).kept rfl
    simp only [Halt.ofExcept, Except.mapError, bind, Except.bind, outcomeInside, ← hchildren]
    rcases compileNodes options data f.children with err | cs
    · rfl
    · exact congrArg Except.ok (set_eq_spliced _ hi)
  · cases v with
    | undefined => exact congrArg (fun ms ↦ Except.ok (ms, 0)) (replaceAt_set i _ _)
    | null => exact congrArg (fun ms ↦ Except.ok (ms, 0)) (replaceAt_set i _ _)
    | array items =>
      have hcopies := @copyInPlace_outcomeInside options aliases t (.fragment []) items.zipIdx
      rw [appendCopies_fragment] at hcopies
      simp only [compileNodes_singleton] at hcopies
      simp only [Halt.ofExcept, Except.mapError, bind, Except.bind] at hcopies ⊢
      rw [hcopies]
      rcases items.zipIdx.mapM (fun x : Value × Nat ↦
        compileNode options (aliases.data x.1 x.2) (.element t)) with err | outs
      · rfl
      · exact congrArg (fun ms ↦ Except.ok (ms, outs.flatten.length)) (replaceAt_set i _ _)
    | _ => exact congrArg Except.ok (set_eq_spliced _ hi)

private theorem walkAt_outcomeInside {ns : List Node} {i : Nat} {n : Node} (hn : ns[i]? = some n) :
    walkAt options (outcomeInside options) data ns i n =
      (Halt.ofExcept (compileNode options data n)).map (Spliced ns i) := by
  have hi := (List.getElem?_eq_some_iff.mp hn).1
  cases n with
  | element e => exact walkElement_outcomeInside e hi
  | text s =>
    rw [walkAt, compileNode]
    rcases compileText data s with err | t
    · rfl
    · exact congrArg Except.ok (set_eq_spliced _ hi)
  | fragment cs =>
    rw [walkAt, compileNode, outcomeInside]
    rcases compileNodes options data cs with err | ns
    · rfl
    · exact congrArg Except.ok (set_eq_spliced _ hi)
  | comment s =>
    rw [walkAt, compileNode]
    exact congrArg Except.ok (set_eq_spliced_self hn)

theorem replaceAt_append_cons (settled : List Node) (n : Node) (ns outcome : List Node) :
    Node.replaceAt (settled ++ n :: ns) settled.length (.fragment outcome) =
      (settled ++ outcome) ++ ns := by
  rw [Node.replaceAt, Node.toList, List.take_left' rfl, ← List.drop_drop, List.drop_left' rfl,
    List.drop_one, List.tail_cons]

/-- **A list of nodes needs no more rounds and calls than it weighs.** -/
theorem walkChildren_eq {bound : Nat} (data : Data) (settled : List Node) {ns : List Node}
    (h : Node.weightAll ns < bound) :
    walkChildren options bound data (settled ++ ns) settled.length =
      (Halt.ofExcept (compileNodes options data ns)).map (settled ++ ·) := by
  induction bound generalizing settled ns data with
  | zero => exact absurd h (Nat.not_lt_zero _)
  | succ bound ih =>
    rcases ns with _ | ⟨n, ns⟩
    · have hget : (settled ++ [])[settled.length]? = none := by
        rw [List.append_nil, List.getElem?_eq_none (Nat.le_refl _)]
      rw [walkChildren, hget, compileNodes_nil]
      rfl
    · have hget : (settled ++ n :: ns)[settled.length]? = some n := by
        rw [List.getElem?_append_right (Nat.le_refl _), Nat.sub_self, List.getElem?_cons_zero]
      have hpos := n.weight_pos
      rw [Node.weightAll] at h
      have hinside : ∀ data cs, Nested options n cs →
          walkChildren options bound data cs 0 = outcomeInside options data cs := by
        intro data cs hcs
        have hlighter := hcs.weightAll_lt
        have hcall := ih data [] (by omega : Node.weightAll cs < bound)
        rw [List.nil_append, List.length_nil] at hcall
        rw [hcall, outcomeInside]
        rcases compileNodes options data cs with err | out <;> rfl
      rw [walkChildren, hget]
      dsimp only
      rw [walkAt_congr data _ _ n hinside, walkAt_outcomeInside hget, compileNodes_cons]
      rcases compileNode options data n with err | out
      · rfl
      · have hrest := ih data (settled ++ out) (by omega : Node.weightAll ns < bound)
        rw [List.length_append, ← replaceAt_append_cons settled n ns out] at hrest
        refine hrest.trans ?_
        rcases compileNodes options data ns with err | behind
        · rfl
        · exact congrArg Except.ok (List.append_assoc settled out behind)

theorem walkChildren_zero_eq {bound : Nat} (data : Data) {ns : List Node}
    (h : Node.weightAll ns < bound) :
    walkChildren options bound data ns 0 = Halt.ofExcept (compileNodes options data ns) := by
  have hwalk : walkChildren options bound data ([] ++ ns) [].length = _ := walkChildren_eq data [] h
  rw [List.nil_append, List.length_nil] at hwalk
  rw [hwalk]
  rcases compileNodes options data ns with err | out <;> rfl

/-- So compiling in place ends, and gives what compiling gives. -/
theorem compileInPlace_eq {bound : Nat} {template : Node} (h : template.weight < bound) :
    compileInPlace options bound data template =
      Halt.ofExcept (compile options data template) := by
  have hsingle : Node.weightAll [template] < bound := by
    rwa [Node.weightAll, Node.weightAll, Nat.add_zero]
  have hroot (hfragment : ∀ cs, template ≠ .fragment cs) :
      compileInPlace options bound data template =
        Halt.ofExcept (compile options data template) := by
    rw [compileInPlace, compile, walkChildren_zero_eq data hsingle, Halt.map_ofExcept]
    · exact hfragment
    · exact hfragment
  cases template with
  | fragment cs =>
    rw [Node.weight] at h
    rw [compileInPlace, compile, walkChildren_zero_eq data (by omega), Halt.map_ofExcept]
  | _ => exact hroot (by rintro cs ⟨⟩)

end Enough

/-! ## Siblings -/

/-- **Siblings are compiled independently and in order.** Two lists of nodes behind one another fail
with the error of the first that fails, and otherwise give the two outcomes behind one another.
Every node is visited once: the outcome of a list is the outcomes of its nodes, each of any length,
in their order, and the walk that goes on by as many nodes as a round reports to occupy comes to the
same, with more rounds and calls allowed than the list weighs. -/
theorem compileNodes_siblings (options : Options) (data : Data) :
    (∀ a b : List Node, compileNodes options data (a ++ b) =
      match compileNodes options data a with
      | .error err => .error err
      | .ok x =>
        match compileNodes options data b with
        | .error err => .error err
        | .ok y => .ok (x ++ y)) ∧
    (∀ ns : List Node, compileNodes options data ns =
      (ns.mapM (compileNode options data)).map List.flatten) ∧
    ∀ (ns : List Node) (spare : Nat),
      walkChildren options (Node.weightAll ns + 1 + spare) data ns 0 =
        Halt.ofExcept (compileNodes options data ns) := by
  refine ⟨fun a b ↦ ?_, compileNodes_eq_mapM, fun ns spare ↦ walkChildren_zero_eq data (by omega)⟩
  rw [compileNodes_append]
  rcases compileNodes options data a with err | x
  · rfl
  · rcases compileNodes options data b with err | y <;> rfl

/-! ## Termination -/

/-- **Compiling in place terminates.** With more rounds and calls allowed than the template weighs,
it gives what compiling gives, on any data. A round calls for nothing but the children of the node
that is visited and its clone; what it calls for weighs less than the node, and a clone has fewer
marker attributes than its element, one of which was taken off before, while no more than a style
was added. And a round moves on behind what took the place of the node, to nodes that stood behind
it before. -/
theorem compileInPlace_terminates (options : Options) :
    (∀ bound data template, template.weight < bound →
      compileInPlace options bound data template =
        Halt.ofExcept (compile options data template)) ∧
    (∀ inside inside' data ns i n,
      (∀ data cs, Nested options n cs → inside data cs = inside' data cs) →
        walkAt options inside data ns i n = walkAt options inside' data ns i n) ∧
    (∀ n cs, Nested options n cs → Node.weightAll cs < n.weight ∧
      (n = .fragment cs ∨ ∃ e, n = .element e ∧ (cs = e.children ∨
        ∃ t, cs = [.element t] ∧ options.markers t < options.markers e ∧
          ∃ f key, t = f.eraseAttribute key ∧ options.isMarker key = true ∧
            0 < Attribute.count f.attributes key ∧ options.Sheds e f))) ∧
    ∀ inside data ns i n ns' occupied, ns[i]? = some n →
      walkAt options inside data ns i n = .ok (ns', occupied) →
        ns'.take i = ns.take i ∧ ns'.drop (i + occupied) = ns.drop (i + 1) ∧
          ns'.length - (i + occupied) < ns.length - i := by
  refine ⟨fun _ _ _ ↦ compileInPlace_eq, fun _ _ data ns i n ↦ walkAt_congr data ns i n, ?_,
    fun _ _ _ _ _ _ _ ↦ walkAt_moves⟩
  intro n cs h
  refine ⟨h.weightAll_lt, ?_⟩
  rcases h with cs | e | ⟨h⟩
  · exact Or.inl rfl
  · exact Or.inr ⟨e, rfl, Or.inl rfl⟩
  · exact Or.inr ⟨_, rfl, Or.inr ⟨_, rfl, exists_eraseAttribute_of_repeats h⟩⟩

/-- An entry that is shown first and then repeated: a style takes the place of one directive, and
the clone lacks the other. -/
theorem compileInPlace_terminates_entry :
    let options : Options := ⟨":", []⟩
    let entry : Element := ⟨"li", [⟨":show", "a"⟩, ⟨":each", "xs"⟩], []⟩
    let clone : Element := ⟨"li", [⟨"style", "display: block;"⟩], []⟩
    let data : Data := [("a", .bool true), ("xs", .array [.null])]
    Nested options (.element entry) [.element clone] ∧
      Node.weightAll [.element clone] < (Node.element entry).weight ∧
      (Node.element entry).weight < 4 ∧
      compileInPlace options 4 data (.element entry) = .ok (.element clone) := by
  intro options entry clone data
  obtain ⟨hterminates, -, hnested, -⟩ := compileInPlace_terminates options
  have hshown : evaluate .display data "a" = .ok (.bool true) :=
    evaluate_name .display _ rfl rfl rfl fun _ ↦ rfl
  have hitems : evaluate .each data (Aliases.ofEach "xs").collection = .ok (.array [.null]) :=
    evaluate_name .each _ rfl rfl rfl fun _ ↦ rfl
  have hshow (e : Element) : bindMarked data "show" "a" e =
      .ok (.stays (e.setStyleProperty "display" "block") true) := by
    rw [bindMarked_of_some e (by decide : Directive.ofName? "show" = some .display),
      if_neg (by decide), hshown]
    rfl
  have heach (e : Element) : bindMarked data "each" "xs" e =
      .ok (.repeats e .each (Aliases.ofEach "xs") (.array [.null])) := by
    rw [bindMarked_of_some e (by decide : Directive.ofName? "each" = some .each),
      if_pos (by decide)]
    simp only [Aliases.ofDirective, hitems]
    rfl
  have hbind : bindElement options data entry =
      .ok (.repeats clone .each (Aliases.ofEach "xs") (.array [.null])) := by
    have hnone : options.priorityOn? entry = none := rfl
    have herase (a : Attribute) (as : List Attribute) :
        (Element.mk "li" (a :: as) []).eraseAttribute a.name = ⟨"li", as, []⟩ := by
      rw [Element.eraseAttribute, Attribute.erase, List.eraseP_cons_of_pos (by simp)]
    have hstyled : (Element.mk "li" [⟨":each", "xs"⟩] []).setStyleProperty "display" "block" =
        ⟨"li", [⟨":each", "xs"⟩, ⟨"style", "display: block;"⟩], []⟩ := rfl
    rw [bindElement, hnone]
    simp only [entry, bindAttributes, herase,
      show options.directiveOf? ":show" = some "show" by decide,
      show options.directiveOf? ":each" = some "each" by decide,
      show Text.trimmed "a" = "a" by decide, show Text.trimmed "xs" = "xs" by decide]
    rw [if_neg (by decide), hshow, hstyled]
    simp only [herase]
    rw [if_neg (by decide), heach]
  have hcopy (data : Data) : compileNode options data (.element clone) = .ok [.element clone] := by
    have hstatic : ∀ a ∈ clone.attributes, a.IsStatic options :=
      List.forall_mem_singleton.mpr ⟨by decide, by decide⟩
    rw [compileNode_of_stays (bindElement_of_isStatic hstatic), compileNodes_nil]
    rfl
  have hclone : Nested options (.element entry) [.element clone] := .clone hbind
  have hweight : (Node.element entry).weight < 4 := by decide
  refine ⟨hclone, (hnested _ _ hclone).1, hweight, ?_⟩
  rw [hterminates 4 data _ hweight, compile, compileNodes_singleton, compileNode_of_repeats hbind]
  · simp only [List.zipIdx_singleton, List.mapM_cons, List.mapM_nil, hcopy]
    rfl
  · rintro cs ⟨⟩

end HtmlTemplate

import HtmlTemplate.Proofs.Markup.Elements
import HtmlTemplate.Proofs.Template.Siblings
import HtmlTemplate.Proofs.Template.Steps

/-!
# What compiling puts in the place of a node

`Node.Yields` says that a node is among those that compiling puts in the place of another one. What
it can be is said once, by `Node.Yields.induction`: a text or a comment in the place of one, a
fragment of what its children yield, an element that its attributes were bound on, with what its
children yield or with a text inside, or whatever a copy of the element yields on the data of an
item.

Compiling goes through the copies of an element as well as through its children, and so does the
induction on what is compiled (`Node.compileInduction`), which is one on the weight of a node.

## Two inductions

One is on what is compiled: a claim about all nodes may use itself for children and for every
element that an element can be repeated as, both of which weigh less. The other is on what comes
out, and has a case for each way in which a node gets to its place; there the data of a copy are
other data, which is why the claim is for all data at once.
-/

namespace HtmlTemplate

variable {options : Options} {data : Data}

/-- Is the node put in the place of another one, when that is compiled on the data? -/
def Node.Yields (options : Options) (data : Data) (n m : Node) : Prop :=
  ∃ ns, compileNode options data n = .ok ns ∧ m ∈ ns

theorem Node.weight_le_of_mem {n : Node} {ns : List Node} (h : n ∈ ns) :
    n.weight ≤ Node.weightAll ns := by
  induction ns with
  | nil => cases h
  | cons m ns ih =>
    rw [Node.weightAll]
    rcases List.mem_cons.mp h with rfl | h
    · omega
    · have := ih h
      omega

/-- **Induction on what is compiled.** An element leads to its children, and to every element that
is repeated in its place. -/
@[elab_as_elim]
theorem Node.compileInduction (options : Options) {motive : Node → Prop}
    (text : ∀ s, motive (.text s)) (comment : ∀ s, motive (.comment s))
    (fragment : ∀ cs, (∀ c ∈ cs, motive c) → motive (.fragment cs))
    (element : ∀ e : Element, (∀ c ∈ e.children, motive c) →
      (∀ {data t d aliases v}, bindElement options data e = .ok (.repeats t d aliases v) →
        motive (.element t)) → motive (.element e))
    (n : Node) : motive n := by
  induction hk : n.weight using Nat.strongRecOn generalizing n with
  | ind k ih =>
    subst hk
    cases n with
    | text s => exact text s
    | comment s => exact comment s
    | fragment cs =>
      refine fragment cs fun c hc ↦ ih _ ?_ c rfl
      have := Node.weight_le_of_mem hc
      rw [Node.weight]
      omega
    | element e =>
      refine element e (fun c hc ↦ ih _ ?_ c rfl) fun hb ↦ ih _ ?_ _ rfl
      · have := Node.weight_le_of_mem hc
        rw [Node.weight, Element.weight_eq]
        omega
      · have := weight_of_repeats hb
        rwa [Node.weight, Node.weight]

theorem exists_of_mem_mapM {α β ε : Type} {f : α → Except ε β} {xs : List α} {ys : List β} {y : β}
    (h : xs.mapM f = .ok ys) (hy : y ∈ ys) : ∃ x ∈ xs, f x = .ok y := by
  induction xs generalizing ys with
  | nil =>
    rw [← Except.ok.inj h] at hy
    exact absurd hy List.not_mem_nil
  | cons x xs ih =>
    rw [List.mapM_cons] at h
    obtain ⟨z, hz, h⟩ := bind_eq_ok_iff.mp h
    obtain ⟨zs, hzs, h⟩ := bind_eq_ok_iff.mp h
    rw [← Except.ok.inj h] at hy
    rcases List.mem_cons.mp hy with rfl | hy
    · exact ⟨x, List.mem_cons_self, hz⟩
    · obtain ⟨x', hx', hf⟩ := ih hzs hy
      exact ⟨x', List.mem_cons_of_mem x hx', hf⟩

theorem yields_of_compileNodes {ns out : List Node} {m : Node}
    (h : compileNodes options data ns = .ok out) (hm : m ∈ out) :
    ∃ n ∈ ns, n.Yields options data m := by
  rw [compileNodes_eq_mapM] at h
  obtain ⟨outs, houts, rfl⟩ := map_eq_ok_iff.mp h
  obtain ⟨out, hout, hm⟩ := List.mem_flatten.mp hm
  obtain ⟨n, hn, hcompile⟩ := exists_of_mem_mapM houts hout
  exact ⟨n, hn, out, hcompile, hm⟩

/-! ## Compiling an element that was bound -/

theorem compileNode_element (e : Element) :
    compileNode options data (.element e) =
      match bindElement options data e with
      | .error err => .error err
      | .ok (.stays f true) =>
        (compileNodes options data e.children).map fun cs ↦ [.element { f with children := cs }]
      | .ok (.stays f false) => .ok [.element f]
      | .ok (.repeats t _ aliases (.array items)) =>
        (items.zipIdx.mapM fun (item, index) ↦
          compileNode options (aliases.data item index) (.element t)).map List.flatten
      | .ok (.repeats _ _ _ .undefined) | .ok (.repeats _ _ _ .null) => .ok []
      | .ok (.repeats _ d _ _) => .ok [placeholder d] := by
  rw [compileNode]
  split
  · rename_i hb
    rw [hb]
  · rename_i hb
    rw [hb]
  · rename_i hb
    rw [hb]
  · rename_i v hb
    cases v <;> simp only [hb]

theorem compileNode_of_stays {e e' : Element}
    (h : bindElement options data e = .ok (.stays e' true)) :
    compileNode options data (.element e) = (compileNodes options data e.children).map fun cs ↦
      [.element { e' with children := cs }] := by
  rw [compileNode_element, h]

theorem compileNode_of_closed {e f : Element}
    (h : bindElement options data e = .ok (.stays f false)) :
    compileNode options data (.element e) = .ok [.element f] := by
  rw [compileNode_element, h]

theorem compileNode_of_repeats {e t : Element} {d : Directive} {aliases : Aliases}
    {items : List Value}
    (h : bindElement options data e = .ok (.repeats t d aliases (.array items))) :
    compileNode options data (.element e) = (items.zipIdx.mapM fun (item, index) ↦
      compileNode options (aliases.data item index) (.element t)).map List.flatten := by
  rw [compileNode_element, h]

/-! ## Outcomes -/

namespace Node.Yields

theorem cases_element {e : Element} {m : Node} (h : (Node.element e).Yields options data m) :
    (∃ f cs, bindElement options data e = .ok (.stays f true) ∧
      compileNodes options data e.children = .ok cs ∧ m = .element { f with children := cs }) ∨
    (∃ f, bindElement options data e = .ok (.stays f false) ∧ m = .element f) ∨
    (∃ t d aliases items item index,
      bindElement options data e = .ok (.repeats t d aliases (.array items)) ∧
      (item, index) ∈ items.zipIdx ∧
      (Node.element t).Yields options (aliases.data item index) m) ∨
    ∃ t d aliases v, bindElement options data e = .ok (.repeats t d aliases v) ∧
      m = placeholder d := by
  obtain ⟨ns, h, hm⟩ := h
  rw [compileNode_element] at h
  split at h
  · exact nomatch h
  · rename_i f hb
    obtain ⟨cs, hcs, rfl⟩ := map_eq_ok_iff.mp h
    exact Or.inl ⟨f, cs, hb, hcs, List.mem_singleton.mp hm⟩
  · rename_i f hb
    rw [← Except.ok.inj h] at hm
    exact Or.inr (Or.inl ⟨f, hb, List.mem_singleton.mp hm⟩)
  · rename_i t d aliases items hb
    obtain ⟨outs, houts, rfl⟩ := map_eq_ok_iff.mp h
    obtain ⟨out, hout, hm⟩ := List.mem_flatten.mp hm
    obtain ⟨⟨item, index⟩, hmem, hcopy⟩ := exists_of_mem_mapM houts hout
    exact Or.inr (Or.inr (Or.inl ⟨t, d, aliases, items, item, index, hb, hmem, out, hcopy, hm⟩))
  · rw [← Except.ok.inj h] at hm
    exact absurd hm List.not_mem_nil
  · rw [← Except.ok.inj h] at hm
    exact absurd hm List.not_mem_nil
  · rename_i t d aliases v _ _ _ hb
    rw [← Except.ok.inj h] at hm
    exact Or.inr (Or.inr (Or.inr ⟨t, d, aliases, v, hb, List.mem_singleton.mp hm⟩))

/-- **Induction on what is put in the place of a node.** -/
theorem induction {motive : Data → Node → Node → Prop}
    (text : ∀ {data s t}, compileText data s = .ok t → motive data (.text s) (.text t))
    (comment : ∀ {data} s, motive data (.comment s) (.comment s))
    (fragment : ∀ {data cs ns}, (∀ m ∈ ns, ∃ c ∈ cs, c.Yields options data m ∧ motive data c m) →
      motive data (.fragment cs) (.fragment ns))
    (inside : ∀ {data e f cs}, bindElement options data e = .ok (.stays f true) →
      compileNodes options data e.children = .ok cs →
      (∀ m ∈ cs, ∃ c ∈ e.children, c.Yields options data m ∧ motive data c m) →
      motive data (.element e) (.element { f with children := cs }))
    (closed : ∀ {data e f}, bindElement options data e = .ok (.stays f false) →
      motive data (.element e) (.element f))
    (copy : ∀ {data e t d aliases items item index m},
      bindElement options data e = .ok (.repeats t d aliases (.array items)) →
      (Node.element t).Yields options (aliases.data item index) m →
      motive (aliases.data item index) (.element t) m → motive data (.element e) m)
    (placeholder : ∀ {data e t d aliases v},
      bindElement options data e = .ok (.repeats t d aliases v) →
      motive data (.element e) (placeholder d))
    {data : Data} {n m : Node} (h : n.Yields options data m) : motive data n m := by
  -- what a list of nodes yields, its nodes yield
  have hall {data : Data} {ns out : List Node}
      (ih : ∀ c ∈ ns, ∀ {data m}, c.Yields options data m → motive data c m)
      (hns : compileNodes options data ns = .ok out) :
      ∀ m ∈ out, ∃ c ∈ ns, c.Yields options data m ∧ motive data c m := by
    intro m hm
    obtain ⟨c, hc, hyields⟩ := yields_of_compileNodes hns hm
    exact ⟨c, hc, hyields, ih c hc hyields⟩
  induction n using Node.compileInduction options generalizing m data with
  | text s =>
    obtain ⟨ns, h, hm⟩ := h
    rw [compileNode] at h
    obtain ⟨t, ht, rfl⟩ := map_eq_ok_iff.mp h
    rw [List.mem_singleton.mp hm]
    exact text ht
  | comment s =>
    obtain ⟨ns, h, hm⟩ := h
    rw [compileNode] at h
    rw [← Except.ok.inj h] at hm
    rw [List.mem_singleton.mp hm]
    exact comment s
  | fragment cs ih =>
    obtain ⟨ns, h, hm⟩ := h
    rw [compileNode] at h
    obtain ⟨out, hout, rfl⟩ := map_eq_ok_iff.mp h
    rw [List.mem_singleton.mp hm]
    exact fragment (hall ih hout)
  | element e ihcs iht =>
    rcases h.cases_element with ⟨f, cs, hb, hcs, rfl⟩ | ⟨f, hb, rfl⟩ |
      ⟨t, d, aliases, items, item, index, hb, -, ht⟩ | ⟨t, d, aliases, v, hb, rfl⟩
    · exact inside hb hcs (hall ihcs hcs)
    · exact closed hb
    · exact copy hb ht (iht hb ht)
    · exact placeholder hb

theorem element_induction {motive : Data → Element → Element → Prop}
    (inside : ∀ {data e f cs}, bindElement options data e = .ok (.stays f true) →
      compileNodes options data e.children = .ok cs → motive data e { f with children := cs })
    (closed : ∀ {data e f}, bindElement options data e = .ok (.stays f false) → motive data e f)
    (copy : ∀ {data e t d aliases items item index f},
      bindElement options data e = .ok (.repeats t d aliases (.array items)) →
      motive (aliases.data item index) t f → motive data e f)
    {data : Data} {e f : Element} (h : (Node.element e).Yields options data (.element f)) :
    motive data e f := by
  refine induction
    (motive := fun data n m ↦ ∀ e f, n = .element e → m = .element f → motive data e f)
    ?text ?comment ?fragment ?inside ?closed ?copy ?placeholder h e f rfl rfl
  case text => exact fun _ _ _ ↦ nofun
  case comment => exact fun _ _ _ ↦ nofun
  case fragment => exact fun _ _ _ ↦ nofun
  case inside =>
    rintro data e f cs hb hcs - _ _ ⟨⟩ ⟨⟩
    exact inside hb hcs
  case closed =>
    rintro data e f hb _ _ ⟨⟩ ⟨⟩
    exact closed hb
  case copy =>
    rintro data e t d aliases items item index m hb - ih _ f ⟨⟩ hm
    exact copy hb (ih t f rfl hm)
  case placeholder => exact fun _ _ _ _ ↦ nofun

end Node.Yields

/-- Only an element puts an element in its place, and one with its tag. -/
theorem exists_element_of_yields {n : Node} {f : Element} (h : n.Yields options data (.element f)) :
    ∃ e, n = .element e ∧ f.tag = e.tag := by
  have helement : ∃ e, n = .element e := by
    refine Node.Yields.induction
      (motive := fun _ n m ↦ ∀ f, m = .element f → ∃ e, n = .element e)
      ?text ?comment ?fragment ?inside ?closed ?copy ?placeholder h f rfl
    case text => exact fun _ _ ↦ nofun
    case comment => exact fun _ _ ↦ nofun
    case fragment => exact fun _ _ ↦ nofun
    case inside => exact fun {_ e _ _} _ _ _ _ _ ↦ ⟨e, rfl⟩
    case closed => exact fun {_ e _} _ _ _ ↦ ⟨e, rfl⟩
    case copy => exact fun {_ e _ _ _ _ _ _ _} _ _ _ _ _ ↦ ⟨e, rfl⟩
    case placeholder => exact fun _ _ ↦ nofun
  obtain ⟨e, rfl⟩ := helement
  refine ⟨e, rfl, ?_⟩
  refine Node.Yields.element_induction (motive := fun _ e f ↦ f.tag = e.tag) ?inside ?closed ?copy h
  case inside => exact fun hb _ ↦ (rewrites_of_stays hb).tag
  case closed => exact fun hb ↦ (rewrites_of_stays hb).tag
  case copy =>
    intro data e t d aliases items item index f hb htag
    obtain ⟨_, hrewrites⟩ := rewrites_of_repeats hb
    rw [htag, hrewrites.tag]

namespace Options.Rewrites

variable {e f : Element}

theorem elementsAll_of_closed (h : options.Rewrites e false f) :
    Node.elementsAll f.children = [] := by
  obtain ⟨-, s, hs⟩ := h.written rfl
  rw [hs, Node.elementsAll_textChildren]

theorem elementsAll_subset {d : Bool} (h : options.Rewrites e d f) :
    Node.elementsAll f.children ⊆ Node.elementsAll e.children := by
  by_cases hd : d = true
  · rw [h.kept hd]
    exact List.Subset.refl _
  · rw [Bool.not_eq_true] at hd
    subst hd
    rw [h.elementsAll_of_closed]
    exact List.nil_subset _

end Options.Rewrites

/-! ## The view of a template -/

private theorem elements_joinRoot (expands : Bool) (ns : List Node) :
    (joinRoot expands ns).elements = Node.elementsAll ns := by
  unfold joinRoot
  split
  · split <;> simp [Node.elements, Node.elementsAll]
  · rw [Node.elements]

/-- The elements of a view are those of what the nodes of the template yield. -/
theorem exists_yields_of_compile {template view : Node} {e : Element}
    (h : compile options data template = .ok view) (he : e ∈ view.elements) :
    ∃ n ∈ template.toList, ∃ m, n.Yields options data m ∧ e ∈ m.elements := by
  have hview : ∃ ns, compileNodes options data template.toList = .ok ns ∧
      view.elements = Node.elementsAll ns := by
    unfold compile at h
    split at h
    · obtain ⟨ns, hns, rfl⟩ := map_eq_ok_iff.mp h
      exact ⟨ns, hns, by rw [Node.elements]⟩
    · rename_i hroot
      obtain ⟨ns, hns, rfl⟩ := map_eq_ok_iff.mp h
      refine ⟨ns, ?_, elements_joinRoot _ _⟩
      rwa [Node.toList]
      exact hroot
  obtain ⟨ns, hns, helements⟩ := hview
  rw [helements] at he
  obtain ⟨m, hm, he⟩ := Node.mem_elementsAll.mp he
  obtain ⟨n, hn, hyields⟩ := yields_of_compileNodes hns hm
  exact ⟨n, hn, m, hyields, he⟩

end HtmlTemplate

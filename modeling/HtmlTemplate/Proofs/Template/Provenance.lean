import HtmlTemplate.Proofs.Template.Bindings
import HtmlTemplate.Proofs.Template.Siblings

/-!
# Where the expressions of errors come from

What compiling has written is read as an expression only if it stands in an element that is compiled
once more, as the template of a repetition that was bound after the write. A template in which that
does not happen is tame (`Node.IsTame`), and every error of a tame template is about an expression
of the template itself (`expression_of_compile`).

The induction is on tameness, which goes through the copies of an element as well as through its
children.

## Tame templates

Tameness is a property of the template and the options; no data occur in it. It asks of every
element that is compiled that nothing be repeated after a write, and that a show directive make no
new span out of a style. It goes on to the copies and the children because these are compiled as
well.
-/

namespace HtmlTemplate

/-- Is nothing read in the node, or in what becomes of it, that compiling has written? -/
inductive Node.IsTame (options : Options) : Node → Prop
  | text (s : String) : IsTame options (.text s)
  | comment (s : String) : IsTame options (.comment s)
  | fragment {cs : List Node} : (∀ n ∈ cs, IsTame options n) → IsTame options (.fragment cs)
  | element {e : Element} (order : options.keepsOrder e = true)
      (fresh : ∀ s ∈ options.starts e ++ options.copies e, ∀ a ∈ s.attributes,
        options.reads a = true → a ∈ e.attributes)
      (copies : ∀ t ∈ options.copies e, IsTame options (.element t))
      (children : options.isOpen e = true → ∀ n ∈ e.children, IsTame options n) :
      IsTame options (.element e)

/-! ## The expressions of a template -/

mutual

/-- The expressions of a node, those of attributes as far as they are read. -/
def Node.expressions (options : Options) : Node → List String
  | .element e => e.expressions options
  | .text s => [Interpolation.expressionOf s]
  | .comment _ => []
  | .fragment cs => Node.expressionsAll options cs

def Element.expressions (options : Options) : Element → List String
  | ⟨_, as, cs⟩ =>
    (as.filter options.reads).flatMap Attribute.expressions ++ Node.expressionsAll options cs

def Node.expressionsAll (options : Options) : List Node → List String
  | [] => []
  | n :: ns => n.expressions options ++ Node.expressionsAll options ns

end

variable {options : Options} {data : Data}

theorem expression_of_compileText {s : String} {err : CompileError}
    (h : compileText data s = .error err) : err.expression = Interpolation.expressionOf s := by
  unfold compileText at h
  split at h
  · cases h
  · exact expression_of_evaluate (map_eq_error_iff.mp h)

theorem expression_of_bindElement {e : Element} {err : CompileError}
    (fresh : ∀ s ∈ options.starts e ++ options.copies e, ∀ a ∈ s.attributes,
      options.reads a = true → a ∈ e.attributes)
    (h : bindElement options data e = .error err) :
    ∃ a ∈ e.attributes, options.reads a = true ∧ err.expression ∈ a.expressions := by
  rcases bindElement_cases options data e with
    ⟨err', heq, hexpr⟩ | ⟨d, aliases, v, heq, _⟩ | ⟨d, e', s, hs, heq, _⟩
  · rw [heq, Except.error.injEq] at h
    exact h ▸ hexpr
  · rw [heq] at h
    cases h
  · rw [heq] at h
    obtain ⟨a, ha, hreads, hexpr⟩ := expression_of_bindAttributes h
    exact ⟨a, fresh s (List.mem_append_left _ hs) a ha hreads, hreads, hexpr⟩

/-! ## Copies have the expressions of their element -/

theorem Element.mem_expressions {e : Element} {x : String} :
    x ∈ e.expressions options ↔
      (∃ a ∈ e.attributes, options.reads a = true ∧ x ∈ a.expressions) ∨
        x ∈ Node.expressionsAll options e.children := by
  obtain ⟨tag, as, cs⟩ := e
  simp only [expressions, List.mem_append, List.mem_flatMap, List.mem_filter, and_assoc]

theorem Node.mem_expressionsAll {ns : List Node} {x : String} :
    x ∈ Node.expressionsAll options ns ↔ ∃ n ∈ ns, x ∈ n.expressions options := by
  induction ns with
  | nil => simp [expressionsAll]
  | cons n ns ih => simp [expressionsAll, ih]

private theorem expressions_of_copies {e t : Element} {x : String}
    (fresh : ∀ s ∈ options.starts e ++ options.copies e, ∀ a ∈ s.attributes,
      options.reads a = true → a ∈ e.attributes)
    (ht : t ∈ options.copies e) (h : x ∈ t.expressions options) : x ∈ e.expressions options := by
  rw [Element.mem_expressions] at h ⊢
  rcases h with ⟨a, ha, hreads, hx⟩ | hx
  · exact Or.inl ⟨a, fresh t (List.mem_append_right _ ht) a ha hreads, hreads, hx⟩
  · rw [children_of_copies ht] at hx
    exact Or.inr hx

/-! ## Compiling a tree -/

theorem exists_of_mapM_eq_error {α β ε : Type} {f : α → Except ε β} {xs : List α} {err : ε}
    (h : xs.mapM f = .error err) : ∃ x ∈ xs, f x = .error err := by
  induction xs with
  | nil => cases h
  | cons x xs ih =>
    rw [List.mapM_cons] at h
    rcases bind_eq_error_iff.mp h with h | ⟨y, _, h⟩
    · exact ⟨x, List.mem_cons_self, h⟩
    · rcases bind_eq_error_iff.mp h with h | ⟨ys, _, h⟩
      · obtain ⟨z, hz, h⟩ := ih h
        exact ⟨z, List.mem_cons_of_mem x hz, h⟩
      · cases h

theorem expression_of_compileNodes {ns : List Node} {err : CompileError}
    (h : compileNodes options data ns = .error err)
    (hns : ∀ n ∈ ns, compileNode options data n = .error err →
      err.expression ∈ n.expressions options) :
    err.expression ∈ Node.expressionsAll options ns := by
  rw [compileNodes_eq_mapM] at h
  obtain ⟨n, hn, herr⟩ := exists_of_mapM_eq_error (map_eq_error_iff.mp h)
  exact Node.mem_expressionsAll.mpr ⟨n, hn, hns n hn herr⟩

theorem expression_of_compileNode {n : Node} (hn : n.IsTame options) {data : Data}
    {err : CompileError} (h : compileNode options data n = .error err) :
    err.expression ∈ n.expressions options := by
  induction hn generalizing data err with
  | text s =>
    rw [compileNode] at h
    rw [expression_of_compileText (map_eq_error_iff.mp h)]
    exact List.mem_singleton_self _
  | comment s =>
    rw [compileNode] at h
    cases h
  | fragment _ ih =>
    rw [compileNode] at h
    exact expression_of_compileNodes (map_eq_error_iff.mp h) fun n hn herr ↦ ih n hn herr
  | @element e order fresh _ _ ihcopies ihchildren =>
    rw [compileNode] at h
    rw [Node.expressions]
    split at h
    · rename_i err' hb
      cases h
      exact Element.mem_expressions.mpr (Or.inl (expression_of_bindElement fresh hb))
    · -- the children are compiled only where no text was written over them
      rename_i e' hb
      refine Element.mem_expressions.mpr (Or.inr ?_)
      exact expression_of_compileNodes (map_eq_error_iff.mp h) fun n hn herr ↦
        ihchildren (isOpen_of_bindElement hb) n hn herr
    · cases h
    · -- an error in a copy is one of the element, which the copy has its attributes from
      rename_i t d aliases collection hb
      have ht := mem_copies_of_bindElement order hb
      split at h
      · obtain ⟨⟨item, index⟩, _, herr⟩ := exists_of_mapM_eq_error (map_eq_error_iff.mp h)
        exact expressions_of_copies fresh ht (ihcopies t ht herr)
      · cases h
      · cases h
      · cases h

theorem expression_of_compile {template : Node} (htame : template.IsTame options)
    {err : CompileError} (h : compile options data template = .error err) :
    err.expression ∈ template.expressions options := by
  unfold compile at h
  split at h
  · rename_i cs
    have hnode : compileNode options data (.fragment cs) = .error err := by
      rw [compileNode]
      rw [map_eq_error_iff] at h ⊢
      exact h
    exact expression_of_compileNode htame hnode
  · have hns := expression_of_compileNodes (map_eq_error_iff.mp h) fun n hn herr ↦
      expression_of_compileNode (List.mem_singleton.mp hn ▸ htame) herr
    obtain ⟨n, hn, hx⟩ := Node.mem_expressionsAll.mp hns
    rwa [← List.mem_singleton.mp hn]

end HtmlTemplate

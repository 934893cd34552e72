import HtmlTemplate.Proofs.Expr.Relocation

/-!
# Names are looked up directly

An evaluator binds the free names of its tree before it evaluates the tree, and a name that is not
bound has its built-in meaning. This is the same as to look each name up where it is read, a global
name among the built-in values and any other name in the data: the free names are all the names that
are read, no entry of the data hides a global name, and only a global name has a built-in value.

## What an evaluator binds

The entries of the data for the free names are bound, and for a free name without an entry nothing
is. A global name is never free. So a name that is read is bound, or it is global, or the data has
no entry for it, and these are the cases in which the two ways to look it up have to agree.
-/

namespace HtmlTemplate.Expr

/-! ## Built-in values -/

private theorem isGlobal_name (f : Builtin) : isGlobal f.name = true := by cases f <;> decide

theorem builtinValue_of_not_isGlobal {name : String} (h : isGlobal name = false) :
    builtinValue name = .undefined := by
  have hne (global : String) (hglobal : isGlobal global = true) : name ≠ global := by
    rintro rfl
    rw [h] at hglobal
    cases hglobal
  rw [builtinValue, if_neg (hne "NaN" (by decide)), if_neg (hne "Infinity" (by decide))]
  rcases hf : Builtin.ofName? name with _ | f
  · rfl
  · have hname : f.name = name := by simpa using List.find?_some hf
    exact absurd hname.symm (hne f.name (isGlobal_name f))

/-! ## The scope of all names -/

private theorem get?_filter {α : Type} (p : String → Bool) (r : Record α) (name : String) :
    Record.get? (r.filter fun entry ↦ p entry.1) name =
      if p name = true then r.get? name else none := by
  induction r with
  | nil => exact (ite_self none).symm
  | cons entry r ih =>
    obtain ⟨key, value⟩ := entry
    rw [Record.get?_cons, List.filter_cons]
    by_cases hp : p key = true
    · rw [if_pos hp, Record.get?_cons, ih]
      by_cases hkey : key = name
      · rw [if_pos hkey, if_pos hkey, if_pos (hkey ▸ hp)]
      · rw [if_neg hkey, if_neg hkey]
    · rw [if_neg hp, ih]
      by_cases hkey : key = name
      · rw [if_neg (hkey ▸ hp), if_neg (hkey ▸ hp)]
      · rw [if_neg hkey]

/-- The scope in which each name is looked up on its own: all entries of the data are bound, but for
those with a global name. -/
def Scope.direct (source : String) (data : Data) : Scope where
  source := source.toList
  bindings := data.filter fun entry ↦ !isGlobal entry.1

theorem resolve_direct (source : String) (data : Data) (name : String) :
    (Scope.direct source data).resolve name = denoted data name := by
  rw [Scope.resolve, Scope.direct, get?_filter (fun n ↦ !isGlobal n), denoted]
  by_cases hglobal : isGlobal name = true
  · rw [if_neg (by simp [hglobal]), if_pos hglobal]
  · rw [if_pos (by simp [hglobal]), if_neg hglobal, Data.lookup]
    rcases data.get? name with _ | value
    · exact builtinValue_of_not_isGlobal (Bool.eq_false_of_not_eq_true hglobal)
    · rfl

/-! ## Evaluators -/

theorem resolve_scope_of_isGlobal {source : String} {e : Expr} (data : Data) {name : String}
    (h : isGlobal name = true) :
    (Evaluator.scope ⟨source, e, e.freeNames⟩ data).resolve name = builtinValue name := by
  have hfree : name ∉ e.freeNames := by
    rw [mem_freeNames, h]
    exact fun hmem ↦ Bool.noConfusion hmem.2
  rw [Evaluator.scope, Scope.resolve, get?_map_self, if_neg hfree]

theorem IsSource.call_eq {s : List Char} {e : Expr} (he : IsSource .conditional s e) (data : Data) :
    (Evaluator.mk (String.ofList s) e e.freeNames).call data =
      eval (.direct (String.ofList s) data) e := by
  refine (he.eval_eq ?_ ?_ fun name hname ↦ ?_).symm
  · exact String.toList_ofList
  · exact String.toList_ofList
  · rw [resolve_direct, resolve_scope data hname]

/-- **A call looks its names up directly.** On every data an evaluator has the result of its tree,
value or error, in the scope in which a global name has its built-in value and every other name its
entry of the data, or no value if there is none. For every name that is global or occurs in the tree
the evaluator has bound just this, and no name has a built-in value that is not global. -/
theorem call_eq_eval_direct (source : String) (data : Data) :
    (Evaluator.ofSource source).map (·.call data) =
      (parse source).map (eval (.direct source data)) ∧
    (∀ name, (Scope.direct source data).resolve name =
      if isGlobal name then builtinValue name else data.lookup name) ∧
    (∀ evaluator, Evaluator.ofSource source = .ok evaluator → ∀ name,
      isGlobal name = true ∨ name ∈ (occurrences evaluator.expr).map (·.1) →
        (evaluator.scope data).resolve name =
          if isGlobal name then builtinValue name else data.lookup name) ∧
    ∀ name, isGlobal name = false → builtinValue name = .undefined := by
  refine ⟨?_, resolve_direct source data, ?_, fun _ ↦ builtinValue_of_not_isGlobal⟩
  · rw [Evaluator.ofSource]
    rcases hparse : parse source with err | e
    · rfl
    · rw [← String.ofList_toList (s := source)] at hparse ⊢
      exact congrArg Except.ok ((parse_eq_ok_iff.mp hparse).call_eq data)
  · intro evaluator hevaluator name hname
    obtain ⟨e, -, rfl⟩ := map_eq_ok_iff.mp hevaluator
    by_cases hglobal : isGlobal name = true
    · rw [if_pos hglobal, resolve_scope_of_isGlobal data hglobal]
    · exact resolve_scope data (hname.resolve_left hglobal)

end HtmlTemplate.Expr

import HtmlTemplate.Expr.Evaluator
import HtmlTemplate.Proofs.Expr.Moving

/-!
# What an expression reads

The value of an expression depends on its source through its tree alone, and on the data through the
names in the tree: each name denotes a built-in value or the entry of the data, whichever expression
it stands in. So an expression that has a value keeps it when it stands inside another source.

## Spans

Spans and source are looked at in one place only, where a callee that is no function is quoted. That
is an error, so the value of an expression that has one does not depend on them (`eval_shift`); what
an error says does.
-/

namespace HtmlTemplate

namespace Expr

/-- What a name denotes on the data. -/
def denoted (data : Data) (name : String) : Value :=
  if isGlobal name then builtinValue name else data.lookup name

theorem mem_freeNames {e : Expr} {name : String} :
    name ∈ e.freeNames ↔ name ∈ (occurrences e).map (·.1) ∧ isGlobal name = false := by
  rw [freeNames, List.mem_filter, List.mem_eraseDups, Bool.not_eq_true']

theorem get?_map_self {f : String → Value} {names : List String} {name : String} :
    Record.get? (names.map fun n ↦ (n, f n)) name =
      if name ∈ names then some (f name) else none := by
  induction names with
  | nil => rfl
  | cons n names ih =>
    rw [List.map_cons, Record.get?_cons, ih]
    by_cases hn : n = name
    · subst hn
      rw [if_pos rfl, if_pos List.mem_cons_self]
    · rw [if_neg hn]
      by_cases hmem : name ∈ names
      · rw [if_pos hmem, if_pos (List.mem_cons_of_mem n hmem)]
      · rw [if_neg hmem, if_neg (by simp [Ne.symm hn, hmem])]

theorem resolve_scope {source : String} {e : Expr} (data : Data) {name : String}
    (h : name ∈ (occurrences e).map (·.1)) :
    (Evaluator.scope ⟨source, e, e.freeNames⟩ data).resolve name = denoted data name := by
  rw [Evaluator.scope, Scope.resolve, get?_map_self, denoted]
  by_cases hglobal : isGlobal name = true
  · rw [if_neg (by rw [mem_freeNames, hglobal]; simp), if_pos hglobal]
  · rw [if_pos (mem_freeNames.mpr ⟨h, by simpa using hglobal⟩), if_neg hglobal]

/-! ## Values of moved expressions -/

def Scope.AgreeOn (scope scope' : Scope) (names : List (String × Span)) : Prop :=
  ∀ name ∈ names.map (·.1), scope'.resolve name = scope.resolve name

theorem Scope.AgreeOn.left {scope scope' : Scope} {ns ms : List (String × Span)}
    (h : scope.AgreeOn scope' (ns ++ ms)) : scope.AgreeOn scope' ns := by
  intro name hname
  refine h name ?_
  rw [List.map_append]
  exact List.mem_append_left _ hname

theorem Scope.AgreeOn.right {scope scope' : Scope} {ns ms : List (String × Span)}
    (h : scope.AgreeOn scope' (ns ++ ms)) : scope.AgreeOn scope' ms := by
  intro name hname
  refine h name ?_
  rw [List.map_append]
  exact List.mem_append_right _ hname

variable {scope scope' : Scope} (d : Nat)

mutual

/-- **A value does not depend on where an expression stands**, nor on the source around it. -/
theorem eval_shift : ∀ (e : Expr) {v : Value}, scope.AgreeOn scope' (occurrences e) →
    eval scope e = .ok v → eval scope' (e.shift d) = .ok v
  | literal value, v, _, h => by
    rw [shift]
    rwa [eval] at h ⊢
  | name text span, v, hnames, h => by
    rw [occurrences] at hnames
    rw [shift, eval, hnames text List.mem_cons_self]
    rwa [eval] at h
  | array items, v, hnames, h => by
    rw [occurrences] at hnames
    rw [eval] at h
    obtain ⟨vs, hvs, rfl⟩ := map_eq_ok_iff.mp h
    rw [shift, eval, evalAll_shift items hnames hvs]
    rfl
  | object members, v, hnames, h => by
    rw [occurrences] at hnames
    rw [eval] at h
    obtain ⟨r, hr, rfl⟩ := map_eq_ok_iff.mp h
    rw [shift, eval, evalMembers_shift members hnames hr]
    rfl
  | member target property, v, hnames, h => by
    rw [occurrences] at hnames
    rw [eval] at h
    obtain ⟨w, hw, h⟩ := bind_eq_ok_iff.mp h
    rw [shift, eval, eval_shift target hnames hw]
    exact h
  | index target key, v, hnames, h => by
    rw [occurrences] at hnames
    rw [eval] at h
    obtain ⟨w, hw, h⟩ := bind_eq_ok_iff.mp h
    obtain ⟨k, hk, h⟩ := bind_eq_ok_iff.mp h
    rw [shift, eval, eval_shift target hnames.left hw, eval_shift key hnames.right hk]
    exact h
  | call callee arguments span, v, hnames, h => by
    rw [occurrences] at hnames
    rw [eval] at h
    obtain ⟨f, hf, h⟩ := bind_eq_ok_iff.mp h
    obtain ⟨vs, hvs, h⟩ := bind_eq_ok_iff.mp h
    rw [shift, eval, eval_shift callee hnames.left hf, evalAll_shift arguments hnames.right hvs]
    cases f with
    | function f => exact h
    | _ => cases h
  | unary op operand, v, hnames, h => by
    rw [occurrences] at hnames
    rw [eval] at h
    obtain ⟨w, hw, h⟩ := bind_eq_ok_iff.mp h
    rw [shift, eval, eval_shift operand hnames hw]
    exact h
  | binary op left right, v, hnames, h => by
    rw [occurrences] at hnames
    rw [eval] at h
    obtain ⟨a, ha, h⟩ := bind_eq_ok_iff.mp h
    obtain ⟨b, hb, h⟩ := bind_eq_ok_iff.mp h
    rw [shift, eval, eval_shift left hnames.left ha, eval_shift right hnames.right hb]
    exact h
  | logical op left right, v, hnames, h => by
    rw [occurrences] at hnames
    rw [eval] at h
    obtain ⟨a, ha, h⟩ := bind_eq_ok_iff.mp h
    rw [shift, eval, eval_shift left hnames.left ha]
    show (if op.isDecided a then .ok a else eval scope' (right.shift d)) = .ok v
    -- the right operand is evaluated only where the left one does not decide
    split_ifs at h ⊢
    · exact h
    · exact eval_shift right hnames.right h
  | conditional test consequent alternate, v, hnames, h => by
    rw [occurrences] at hnames
    rw [eval] at h
    obtain ⟨w, hw, h⟩ := bind_eq_ok_iff.mp h
    rw [shift, eval, eval_shift test hnames.left.left hw]
    show (if w.isTruthy then eval scope' (consequent.shift d)
      else eval scope' (alternate.shift d)) = .ok v
    split_ifs at h ⊢
    · exact eval_shift consequent hnames.left.right h
    · exact eval_shift alternate hnames.right h

theorem evalAll_shift : ∀ (es : List Expr) {vs : List Value},
    scope.AgreeOn scope' (occurrencesAll es) → evalAll scope es = .ok vs →
    evalAll scope' (shiftAll d es) = .ok vs
  | [], vs, _, h => by
    rw [shiftAll]
    rwa [evalAll] at h ⊢
  | e :: es, vs, hnames, h => by
    rw [occurrencesAll] at hnames
    rw [evalAll] at h
    obtain ⟨w, hw, h⟩ := bind_eq_ok_iff.mp h
    obtain ⟨ws, hws, h⟩ := bind_eq_ok_iff.mp h
    rw [shiftAll, evalAll, eval_shift e hnames.left hw, evalAll_shift es hnames.right hws]
    exact h

theorem evalMembers_shift : ∀ (ms : List ObjectMember) {record r : Record Value},
    scope.AgreeOn scope' (occurrencesMembers ms) → evalMembers scope record ms = .ok r →
    evalMembers scope' record (shiftMembers d ms) = .ok r
  | [], record, r, _, h => by
    rw [shiftMembers]
    rwa [evalMembers] at h ⊢
  | .pair key value :: ms, record, r, hnames, h => by
    rw [occurrencesMembers] at hnames
    rw [evalMembers] at h
    obtain ⟨w, hw, h⟩ := bind_eq_ok_iff.mp h
    rw [shiftMembers, evalMembers, eval_shift value hnames.left hw]
    exact evalMembers_shift ms hnames.right h
  | .shorthand text span :: ms, record, r, hnames, h => by
    rw [occurrencesMembers] at hnames
    rw [evalMembers] at h
    rw [shiftMembers, evalMembers, hnames text List.mem_cons_self]
    exact evalMembers_shift ms (fun n hn ↦ hnames n (List.mem_cons_of_mem _ hn)) h

end

end Expr

end HtmlTemplate

import HtmlTemplate.Expr.Evaluator
import HtmlTemplate.Proofs.Number.Integers

/-!
# Indices of arrays

A key is an index exactly if it is the decimal text of a natural number below the bound
(`arrayIndex?_eq_some_iff`). The text of a natural number up to `2 ^ 53` is its digits, so an array
is read at the number's own place, and the operator `in` asks for the same place.

## Keys and numbers

A number that is used as a key is written as a text first. For natural numbers up to `2 ^ 53` that
text is the digits, so every such number is the key of its own place. Keys are compared with the
digits of the number that they are read as, which leaves out a superfluous zero in front, a sign and
an exponent.
-/

namespace HtmlTemplate

open Number (decimalDigits ofDigits)

variable {key : String} {n : Nat}

theorem toString_eq (n : Nat) : toString n = String.ofList (decimalDigits n) :=
  Nat.repr_eq_ofList_toDigits

theorem check_eq_false_iff (cs : List Char) :
    (cs.isEmpty || (1 < cs.length && cs.head? == some '0') || !cs.all Char.isDigit) = false ↔
      cs = decimalDigits (ofDigits 10 cs) := by
  simp only [Bool.or_eq_false_iff, Bool.and_eq_false_iff, Bool.not_eq_false', List.all_eq_true,
    List.isEmpty_eq_false_iff, decide_eq_false_iff_not, beq_eq_false_iff_ne]
  constructor
  · rintro ⟨⟨hne, hzero⟩, hdigits⟩
    refine Number.eq_decimalDigits hne hdigits fun es hes ↦ ?_
    rcases hzero with hlen | hhead
    · rw [hes, List.length_cons] at hlen
      exact List.length_eq_zero_iff.mp (by omega)
    · rw [hes] at hhead
      exact absurd rfl hhead
  · intro h
    obtain ⟨c, ds, hds, hzero⟩ := Number.exists_decimalDigits_eq_cons (ofDigits 10 cs)
    rw [← h] at hds
    refine ⟨⟨by rw [hds]; exact List.cons_ne_nil c ds, ?_⟩, fun c hc ↦ ?_⟩
    · rw [hds, List.length_cons, List.head?_cons]
      rcases eq_or_ne c '0' with hc | hc
      · rw [(hzero hc).2]
        exact .inl (by decide)
      · exact .inr fun h ↦ hc (Option.some.inj h)
    · rw [h] at hc
      exact Number.isDigit_of_mem_decimalDigits hc

/-- **A key is an index exactly if it is the decimal text of a number** that is not too large. -/
theorem arrayIndex?_eq_some_iff : arrayIndex? key = some n ↔ n < indexBound ∧ key = toString n := by
  have hkey (m : Nat) : key = toString m ↔ key.toList = decimalDigits m := by
    rw [toString_eq, ← String.toList_inj, String.toList_ofList]
  rw [hkey, arrayIndex?]
  dsimp only
  split
  next h =>
    refine iff_of_false (fun h ↦ by cases h) fun ⟨_, heq⟩ ↦ ?_
    rw [(check_eq_false_iff _).mpr (by rw [heq, Number.ofDigits_decimalDigits])] at h
    cases h
  next h =>
    have heq := (check_eq_false_iff _).mp (Bool.eq_false_of_not_eq_true h)
    split
    next hlt =>
      refine ⟨fun h ↦ ?_, fun ⟨_, h⟩ ↦ ?_⟩
      · cases h
        exact ⟨hlt, heq⟩
      · rw [h, Number.ofDigits_decimalDigits]
    next hge =>
      refine iff_of_false (fun h ↦ by cases h) fun ⟨hlt, h⟩ ↦ hge ?_
      rwa [h, Number.ofDigits_decimalDigits]

namespace Value

private theorem arrayIndex?_toText (hn : n < 2 ^ 53) :
    arrayIndex? (number (Number.ofNat n)).toText = some n := by
  have htext : (number (Number.ofNat n)).toText = toString n := by
    rw [toString_eq, toText, Number.text_ofNat hn.le]
  rw [htext]
  exact arrayIndex?_eq_some_iff.mpr ⟨hn.trans (by decide), rfl⟩

theorem ne_length_of_arrayIndex? (h : arrayIndex? key = some n) : key ≠ "length" := by
  rintro rfl
  cases h

/-- **An array is read at the place that a number gives**, by its key and by the operator `in`. -/
theorem array_at_natural (items : List Value) :
    (∀ n < 2 ^ 53,
      (array items).getProperty (number (Number.ofNat n)).toText =
          .ok (items[n]?.getD undefined) ∧
        Expr.BinaryOp.isIn.apply (number (Number.ofNat n)) (array items) =
          .ok (bool (decide (n < items.length)))) ∧
      ∀ (key : String) (n : Nat), arrayIndex? key = some n ↔ n < 2 ^ 64 ∧ key = toString n := by
  refine ⟨fun n hn ↦ ?_, fun key n ↦ arrayIndex?_eq_some_iff⟩
  have hindex := arrayIndex?_toText hn
  have hkey := ne_length_of_arrayIndex? hindex
  constructor
  · rw [getProperty, if_neg hkey, hindex]
  · rw [Expr.BinaryOp.apply, hasProperty, hindex, beq_eq_false_iff_ne.mpr hkey]
    rfl

theorem array_at_one :
    (array [null, bool true]).getProperty (number (Number.ofNat 1)).toText = .ok (bool true) ∧
      Expr.BinaryOp.isIn.apply (number (Number.ofNat 1)) (array [null, bool true]) =
        .ok (bool true) :=
  (array_at_natural [null, bool true]).1 1 (by decide)

end Value

end HtmlTemplate

import HtmlTemplate.Proofs.Number.Nearest

/-!
# Equality and order of doubles

Two doubles are equal if they stand for the same value, whatever the sign of a zero, and neither is
a NaN (`beq_iff`). So equality is symmetric and transitive, and it fails between a double and itself
exactly if that is a NaN.

Doubles without a minus are ordered as their values are (`HasValue.lt_iff`), although it is the
exponents that are compared first.

## Exact values

What is compared is what the double stands for exactly: a sign, a mantissa and an exponent, or one
of the special values. Numbers of one sign are compared by exponent first, which is right only
because a mantissa with a larger exponent has all its digits (`IsCanonical.lt_of_lt`).
-/

namespace HtmlTemplate.Number

open Float.Model (UnpackedFloat)

/-- What the equality of doubles compares: the exact value, with one zero only. -/
def comparandOf : UnpackedFloat → Exact
  | .notANumber => .nan
  | .infinity s => .infinite (isMinus s)
  | .zero _ => .finite false 0 0
  | .finite s m e _ => .finite (isMinus s) m e

theorem isNaN_eq (u : UnpackedFloat) : u.isNaN = decide (comparandOf u = .nan) := by
  cases u <;> rfl

theorem compare_finite_eq_iff {s t : UnpackedFloat.Sign} {m n : Nat} {d e : Int} {hm : 0 < m}
    {hn : 0 < n} : (UnpackedFloat.finite s m d hm).compare (.finite t n e hn) = some .eq ↔
      isMinus s = isMinus t ∧ m = n ∧ d = e := by
  have hthen : (compare d e).then (compare m n) = .eq ↔ m = n ∧ d = e := by
    rw [Ordering.then_eq_eq, Int.compare_eq_eq, Nat.compare_eq_eq, and_comm]
  -- of different signs the one is less than the other
  have hne {o : Ordering} {p : Prop} (ho : o ≠ .eq) (hp : ¬p) : some o = some Ordering.eq ↔ p :=
    iff_of_false (fun h ↦ ho (Option.some.inj h)) hp
  cases s <;> cases t
  · show some ((compare d e).then (compare m n)).swap = some .eq ↔ true = true ∧ _
    rw [Option.some.injEq, Ordering.swap_eq_eq, hthen, eq_self_iff_true, true_and]
  · exact hne (by decide) fun h ↦ Bool.noConfusion h.1
  · exact hne (by decide) fun h ↦ Bool.noConfusion h.1
  · show some ((compare d e).then (compare m n)) = some .eq ↔ false = false ∧ _
    rw [Option.some.injEq, hthen, eq_self_iff_true, true_and]

private theorem compare_eq_some_eq_iff (u v : UnpackedFloat) :
    u.compare v = some .eq ↔ comparandOf u = comparandOf v ∧ u.isNaN = false := by
  cases u with
  | notANumber => exact iff_of_false (fun h ↦ by cases h) fun h ↦ by cases h.2
  | infinity s =>
    cases v with
    | infinity t => cases s <;> cases t <;> decide
    | _ => cases s <;> exact iff_of_false (fun h ↦ by cases h) fun h ↦ by cases h.1
  | zero s =>
    cases v with
    | zero t => exact iff_of_true rfl ⟨rfl, rfl⟩
    | finite t n e hn =>
      -- a mantissa is never zero
      refine iff_of_false (by cases t <;> exact fun h ↦ by cases h) fun h ↦ ?_
      exact Nat.ne_of_lt hn (Exact.finite.inj h.1).2.1
    | infinity t => cases t <;> exact iff_of_false (fun h ↦ by cases h) fun h ↦ by cases h.1
    | notANumber => exact iff_of_false (fun h ↦ by cases h) fun h ↦ by cases h.1
  | finite s m d hm =>
    cases v with
    | finite t n e hn =>
      rw [compare_finite_eq_iff]
      refine ⟨fun h ↦ ⟨?_, rfl⟩, fun h ↦ Exact.finite.inj h.1⟩
      show Exact.finite (isMinus s) m d = .finite (isMinus t) n e
      rw [h.1, h.2.1, h.2.2]
    | zero t =>
      refine iff_of_false (by cases s <;> exact fun h ↦ by cases h) fun h ↦ ?_
      exact Nat.ne_of_gt hm (Exact.finite.inj h.1).2.1
    | infinity t =>
      cases s <;> cases t <;> exact iff_of_false (fun h ↦ by cases h) fun h ↦ by cases h.1
    | notANumber => exact iff_of_false (fun h ↦ by cases h) fun h ↦ by cases h.1

def comparand (x : Float) : Exact := comparandOf x.toModel.unpack

/-- **Doubles are equal if they stand for the same value**, and that is not a NaN. -/
theorem beq_iff {x y : Float} :
    (x == y) = true ↔ comparand x = comparand y ∧ x.isNaN = false := by
  have hbeq : (x == y) = (x.toModel.unpack.compare y.toModel.unpack == some .eq) := rfl
  rw [hbeq, beq_iff_eq]
  exact compare_eq_some_eq_iff _ _

theorem isNaN_congr {x y : Float} (h : comparand x = comparand y) : x.isNaN = y.isNaN := by
  have hx : x.isNaN = decide (comparand x = .nan) := isNaN_eq _
  have hy : y.isNaN = decide (comparand y = .nan) := isNaN_eq _
  rw [hx, hy, h]

theorem beq_comm (x y : Float) : (x == y) = (y == x) := by
  rw [Bool.eq_iff_iff, beq_iff, beq_iff]
  exact ⟨fun h ↦ ⟨h.1.symm, isNaN_congr h.1 ▸ h.2⟩, fun h ↦ ⟨h.1.symm, isNaN_congr h.1 ▸ h.2⟩⟩

/-! ## Order -/

variable {x y : Float} {v w : Rat} {m m' : Nat} {e e' : Int} {negative : Bool}

theorem lt_iff (x y : Float) : x < y ↔ x.toModel.unpack.compare y.toModel.unpack = some .lt := by
  have hlt : x < y ↔ decide (UnpackedFloat.lt x.toModel.unpack y.toModel.unpack = true) = true :=
    Iff.rfl
  rw [hlt, decide_eq_true_eq, UnpackedFloat.lt, beq_iff_eq]

/-- A larger exponent makes the larger number, since its mantissa has all digits. -/
theorem IsCanonical.lt_of_lt (h : IsCanonical m e) (h' : IsCanonical m' e') (hlt : e < e') :
    (m : Rat) * 2 ^ e < m' * 2 ^ e' := by
  have hle := h.le
  have hm' : (2 : Rat) ^ (52 : Int) ≤ m' := by
    exact_mod_cast h'.normal.resolve_right (by omega)
  have hm : (m : Rat) < 2 ^ (53 : Int) := by exact_mod_cast h.lt
  calc (m : Rat) * 2 ^ e
    _ < 2 ^ (53 : Int) * 2 ^ e := mul_lt_mul_of_pos_right hm (zpow_pos two_pos e)
    _ = 2 ^ (53 + e) := (zpow_add₀ two_ne_zero _ _).symm
    _ ≤ 2 ^ (52 + e') := two_zpow_le (by omega)
    _ = 2 ^ (52 : Int) * 2 ^ e' := zpow_add₀ two_ne_zero _ _
    _ ≤ m' * 2 ^ e' := mul_le_mul_of_nonneg_right hm' (zpow_pos two_pos e').le

theorem IsCanonical.compare_eq_lt_iff (h : IsCanonical m e) (h' : IsCanonical m' e') :
    (compare e e').then (compare m m') = .lt ↔ (m : Rat) * 2 ^ e < m' * 2 ^ e' := by
  rcases lt_trichotomy e e' with hlt | rfl | hgt
  · rw [Int.compare_eq_lt.mpr hlt]
    exact iff_of_true rfl (h.lt_of_lt h' hlt)
  · rw [Int.compare_eq_eq.mpr rfl, mul_lt_mul_iff_left₀ (zpow_pos two_pos e), Nat.cast_lt]
    exact Nat.compare_eq_lt
  · rw [Int.compare_eq_gt.mpr hgt]
    exact iff_of_false nofun (h'.lt_of_lt h hgt).not_gt

/-- **Doubles without a minus are ordered as their values are.** -/
theorem HasValue.lt_iff (hx : HasValue x v) (hy : HasValue y w) : x < y ↔ v < w := by
  rw [Number.lt_iff]
  obtain ⟨rfl, hu⟩ | ⟨m, e, hc, rfl, hu⟩ := hx.zero_or_finite <;>
    obtain ⟨rfl, hu'⟩ | ⟨m', e', hc', rfl, hu'⟩ := hy.zero_or_finite <;> rw [hu, hu']
  · exact iff_of_false nofun (lt_irrefl 0)
  · exact iff_of_true rfl (mul_pos (Nat.cast_pos.mpr hc'.pos) (zpow_pos two_pos e'))
  · exact iff_of_false nofun (mul_pos (Nat.cast_pos.mpr hc.pos) (zpow_pos two_pos e)).not_gt
  · rw [← hc.compare_eq_lt_iff hc']
    exact Option.some_inj

theorem lt_zero_iff (hx : exact x = .finite negative m e) : x < 0 ↔ negative = true ∧ m ≠ 0 := by
  have hzero : (0 : Float).toModel.unpack = .zero .positive := rfl
  rw [Number.lt_iff, hzero]
  obtain ⟨hu, rfl, rfl⟩ | ⟨hc, hu⟩ := unpack_of_exact hx <;> rw [hu]
  · exact iff_of_false nofun fun h ↦ h.2 rfl
  · cases negative
    · exact iff_of_false nofun fun h ↦ Bool.false_ne_true h.1
    · exact iff_of_true rfl ⟨rfl, hc.pos.ne'⟩

end HtmlTemplate.Number

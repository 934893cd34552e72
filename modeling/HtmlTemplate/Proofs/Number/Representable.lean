import HtmlTemplate.Proofs.Number.Scientific

/-!
# Numbers that are doubles

A rational number is a double if its binary digits fit into a mantissa and its exponent is in range
(`isDouble_mul_two_zpow`), and what is rounded to a double that it is itself is not changed
(`IsNearest.hasValue`). Any other number of moderate size is rounded to a double that is off by half
a unit of the last digit at most (`IsNearest.exists_close`).

From `2 ^ 52` on all doubles are integers, so a double with a fraction comes from a smaller number
(`IsNearest.lt_two_pow`).

## Exact steps in calculations

A calculation in several steps is exact as long as the result of each step is a double, whatever its
size. This is weaker than staying below `2 ^ 53`, and it is the condition in the claims about sums
of digits and about fraction digits.
-/

namespace HtmlTemplate.Number

variable {x y : Float} {v w : Rat} {m n : Nat} {e : Int}

/-- Is the number, which has no minus, a double? -/
def IsDouble (v : Rat) : Prop := ∃ x, HasValue x v

/-! ## Mantissas in range -/

theorem IsCanonical.isDouble (h : IsCanonical m e) : IsDouble (m * 2 ^ e) :=
  ⟨_, h.hasValue h.isNearest⟩

theorem isCanonical_shiftLeft_min (hn : 0 < n) (hlt : n < 2 ^ 53) (hle : -1074 ≤ e)
    (hmax : e ≤ 971) :
    IsCanonical (n <<< min (52 - n.log2) (e + 1074).toNat)
      (e - (min (52 - n.log2) (e + 1074).toNat : Nat)) := by
  have hlog : n.log2 < 53 := (Nat.log2_lt hn.ne').mpr hlt
  have hne (k : Nat) : n <<< k ≠ 0 := by
    rw [Nat.shiftLeft_eq]
    exact Nat.mul_ne_zero hn.ne' (Nat.two_pow_pos _).ne'
  refine ⟨Nat.pos_of_ne_zero (hne _), (Nat.log2_lt (hne _)).mp ?_, by omega, by omega, ?_⟩
  · rw [log2_shiftLeft hn.ne']
    omega
  · rw [← Nat.le_log2 (hne _), log2_shiftLeft hn.ne']
    omega

/-- **What fits into a mantissa is a double.** -/
theorem isDouble_mul_two_zpow (hlt : n < 2 ^ 53) (hle : -1074 ≤ e) (hmax : e ≤ 971) :
    IsDouble (n * 2 ^ e) := by
  rcases Nat.eq_zero_or_pos n with rfl | hn
  · rw [Nat.cast_zero, zero_mul]
    exact ⟨_, IsNearest.zero.hasValue_zero⟩
  · have hdouble := (isCanonical_shiftLeft_min hn hlt hle hmax).isDouble
    rwa [Nat.shiftLeft_eq, Nat.cast_mul, Nat.cast_pow, Nat.cast_two, ← zpow_natCast, mul_assoc,
      ← zpow_add₀ two_ne_zero, add_sub_cancel] at hdouble

theorem isDouble_natCast (hn : n ≤ 2 ^ 53) : IsDouble n := ⟨_, hasValue_ofNat hn⟩

/-- What is rounded to the nearest double is not changed if it is a double itself. -/
theorem IsNearest.hasValue (h : IsNearest v x) (hv : IsDouble v) : HasValue x v := by
  obtain ⟨y, hy⟩ := hv
  rwa [h.unique hy.isNearest]

/-! ## The error of rounding -/

theorem HasValue.nonneg (h : HasValue x v) : 0 ≤ v := by
  obtain ⟨m, e, -, rfl⟩ := h
  positivity

theorem HasValue.value_unique (h : HasValue x v) (h' : HasValue x w) : v = w := by
  obtain ⟨m, e, hx, rfl⟩ := h
  obtain ⟨m', e', hx', rfl⟩ := h'
  cases hx.symm.trans hx'
  rfl

theorem exact_infinity : exact infinity = .infinite false := rfl

private theorem not_hasValue_infinity (v : Rat) : ¬HasValue infinity v := by
  rintro ⟨m, e, hx, -⟩
  cases exact_infinity.symm.trans hx

theorem IsNearest.exists_rounds (h : IsNearest v x) (hx : HasValue x w) :
    ∃ n t, Rounds v n t ∧ w = n * 2 ^ t := by
  obtain ⟨n, t, hrounds, heq⟩ := h
  refine ⟨n, t, hrounds, ?_⟩
  rcases hrounds.hasValue_or_eq_infinity heq with hvalue | ⟨rfl, -⟩
  · exact hx.value_unique hvalue
  · exact absurd hx (not_hasValue_infinity w)

/-- **The error is half a unit of the last digit at most**, in a number that has all digits. -/
theorem IsNearest.exists_close (h : IsNearest v x) (hle : (2 : Rat) ^ (-1022 : Int) ≤ v)
    (hlt : v < 2 ^ (1023 : Int)) : ∃ w, HasValue x w ∧ |w - v| ≤ v / 2 ^ 53 := by
  obtain ⟨n, t, hrounds, heq⟩ := h
  have hnormal : (2 : Rat) ^ (t + 52) ≤ v := by
    rcases hrounds.grid.normal with rfl | hv
    · exact hle
    · exact hv
  have ht : t + 52 < 1023 := lt_of_two_zpow_lt (hnormal.trans_lt hlt)
  refine ⟨n * 2 ^ t, (hrounds.hasValue_or_eq_infinity heq).resolve_right fun h ↦ by omega, ?_⟩
  have hpos : (0 : Rat) < 2 ^ t := zpow_pos two_pos t
  have hdiff : |(n : Rat) - v / 2 ^ t| ≤ 1 / 2 :=
    abs_le.mpr ⟨by linarith [hrounds.nearest.upper], by linarith [hrounds.nearest.lower]⟩
  calc |(n : Rat) * 2 ^ t - v|
    _ = |(n : Rat) - v / 2 ^ t| * 2 ^ t := by
      rw [← abs_of_pos hpos, ← abs_mul, abs_of_pos hpos, sub_mul, div_mul_cancel₀ _ hpos.ne']
    _ ≤ 1 / 2 * 2 ^ t := mul_le_mul_of_nonneg_right hdiff hpos.le
    _ = 2 ^ (t + 52) / 2 ^ 53 := by
      rw [zpow_add₀ two_ne_zero]
      norm_num
      ring
    _ ≤ v / 2 ^ 53 := div_le_div_of_nonneg_right hnormal (by positivity)

/-- **A double with a fraction comes from a number below `2 ^ 52`**, since all doubles from there on
are integers. -/
theorem IsNearest.lt_two_pow (h : IsNearest v x) (hx : HasValue x w) (hw : ∀ k : Nat, w ≠ k) :
    v < 2 ^ 52 := by
  by_contra! hle
  obtain ⟨n, t, hrounds, rfl⟩ := h.exists_rounds hx
  have ht : (52 : Int) < t + 53 := lt_of_two_zpow_lt (hle.trans_lt hrounds.grid.lt)
  obtain ⟨k, rfl⟩ : ∃ k : Nat, t = k := ⟨t.toNat, by omega⟩
  refine hw (n * 2 ^ k) ?_
  push_cast
  rw [zpow_natCast]

end HtmlTemplate.Number

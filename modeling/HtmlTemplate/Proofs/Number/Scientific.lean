import HtmlTemplate.Number.Decimal
import HtmlTemplate.Proofs.Number.Nearest

/-!
# The double nearest to a decimal

A decimal with a short significand and a small exponent is taken from two exact doubles by one
multiplication or division, any other from two natural numbers, and one that is far too large or too
small is not calculated at all. In each case the outcome is the nearest double
(`Decimal.isNearest_toFloat`), so it depends on the value of the decimal alone.

## Three ways

The powers of ten up to the twenty-second are doubles, and so is a short significand; one operation
on two exact doubles is rounded once. Otherwise the number is a quotient of natural numbers, in
which the division keeps enough digits to be rounded once at the end. Far out of range the outcome
is known beforehand, infinity or zero, and it is what rounding would give.
-/

namespace HtmlTemplate.Number

open Float.Model (UnpackedFloat)
open Float.Model.UnpackedFloat (Sign)

variable {x : Float} {v : Rat} {m n e : Nat}

/-! ## Exact doubles -/

theorem toFloat_toUInt64 (hm : m < 2 ^ 53) : m.toUInt64.toFloat = ofNat m := by
  have htoNat : m.toUInt64.toNat = m := Nat.mod_eq_of_lt (hm.trans (by decide))
  show Float.ofModel
    (.pack (UnpackedFloat.normalize .binary64 (m.toUInt64.toNat : Int) 0 .positive)) = _
  rw [htoNat, UnpackedFloat.normalize, ofNat, nearest]
  rcases Nat.eq_zero_or_pos m with rfl | hpos
  · rfl
  · rw [if_neg hpos.ne', Int.compare_eq_gt.mpr (by omega), Int.toNat_natCast]
    rfl

private theorem powersOfTen_eq : ∀ e : Fin 23,
    Float.exactlyRepresentablePowersOfTen[e] = nearest false (5 ^ e.val) e.val := by
  decide +kernel

theorem hasValue_powersOfTen (e : Fin 23) :
    HasValue Float.exactlyRepresentablePowersOfTen[e] (10 ^ e.val) := by
  have hlt : 5 ^ e.val < 2 ^ 53 :=
    (Nat.pow_le_pow_right (by decide) (Nat.le_of_lt_succ e.isLt)).trans_lt (by decide)
  have hnearest := isNearest_nearest (5 ^ e.val) e.val
  rw [zpow_natCast] at hnearest
  have hvalue := hnearest.hasValue_mul_two_pow hlt (by omega)
  rw [Nat.cast_pow, ← mul_pow] at hvalue
  rw [powersOfTen_eq]
  norm_num at hvalue
  exact hvalue

/-! ## Values out of range -/

theorem pack_of_le {s : Sign} {t : Int} (hm : 0 < m) (ht : 972 ≤ t) :
    Float.Model.pack (.finite s m t hm) = .pack (.infinity s) := by
  have hpack : UnpackedFloat.pack .binary64 (.finite s m t hm) =
      UnpackedFloat.pack .binary64 (.infinity s) := by
    rw [UnpackedFloat.pack]
    show (if 2 ^ 11 ≤ (t + 1023 + 52).toNat + 1 then _ else _) = _
    rw [if_pos (by omega)]
  rw [Float.Model.pack, Float.Model.pack]
  congr 2

theorem IsNearest.eq_infinity (h : IsNearest v x) (hv : (2 : Rat) ^ (1024 : Int) ≤ v) :
    x = infinity := by
  obtain ⟨n, t, hrounds, rfl⟩ := h
  have ht : 972 ≤ t := by
    have := lt_of_two_zpow_lt (hv.trans_lt hrounds.grid.lt)
    omega
  have hn : n ≠ 0 := by
    have := hrounds.two_pow_le.resolve_right (by omega)
    omega
  rw [rounded, dif_neg hn, infinity]
  split
  · rw [pack_of_le _ ht]
  · rw [pack_of_le _ (by omega)]

theorem hasValue_or_eq_infinity_pack {n : Nat} {t : Int} (hn : 0 < n) (hlt : n < 2 ^ 53)
    (hle : -1074 ≤ t) (hnormal : 2 ^ 52 ≤ n ∨ t = -1074) :
    HasValue (.ofModel (.pack (.finite .positive n t hn))) (n * 2 ^ t) ∨
      (Float.ofModel (.pack (.finite .positive n t hn)) = infinity ∧ 971 < t) := by
  rcases le_or_gt t 971 with ht | ht
  · exact .inl (IsCanonical.hasValue ⟨hn, hlt, hle, ht, hnormal⟩
      (IsCanonical.isNearest ⟨hn, hlt, hle, ht, hnormal⟩))
  · exact .inr ⟨by rw [pack_of_le hn (by omega), infinity], ht⟩

/-- What rounding ends in is a value, or infinity if the grid is too coarse. -/
theorem Rounds.hasValue_or_eq_infinity {n : Nat} {t : Int} (h : Rounds v n t)
    (hx : x = .ofModel (.pack (rounded .positive n t))) :
    HasValue x (n * 2 ^ t) ∨ (x = infinity ∧ 970 < t) := by
  subst hx
  have hle := h.grid.le
  by_cases hn : n = 0
  · subst hn
    exact .inl ⟨0, 0, exact_pack_zero .positive t, by rw [Nat.cast_zero, zero_mul, zero_mul]⟩
  rw [rounded, dif_neg hn]
  split
  next hlt =>
    refine (hasValue_or_eq_infinity_pack _ hlt hle h.two_pow_le).imp_right fun h ↦ ⟨h.1, ?_⟩
    have := h.2
    omega
  next hge =>
    obtain rfl : n = 2 ^ 53 := Nat.le_antisymm h.le (Nat.le_of_not_lt hge)
    have hcarry : (((2 ^ 53 : Nat) : Rat)) * 2 ^ t = (2 ^ 52 : Nat) * 2 ^ (t + 1) := by
      rw [zpow_add_one₀ two_ne_zero]
      push_cast
      ring
    rw [hcarry]
    refine (hasValue_or_eq_infinity_pack _ (by decide) (by omega) (.inl le_rfl)).imp_right
      fun h ↦ ⟨h.1, ?_⟩
    have := h.2
    omega

theorem IsNearest.hasValue_or_eq_infinity (h : IsNearest v x) :
    (∃ w, HasValue x w) ∨ x = infinity := by
  obtain ⟨n, t, hrounds, hx⟩ := h
  exact (hrounds.hasValue_or_eq_infinity hx).imp (fun h ↦ ⟨_, h⟩) And.left

theorem isNearest_zero (hv : 0 ≤ v) (hlt : v < 2 ^ (-1075 : Int)) :
    IsNearest v (.ofModel (.pack (.zero .positive))) := by
  refine ⟨0, -1074, ⟨⟨le_rfl, hlt.trans_le (two_zpow_le (by decide)), .inl rfl⟩, ?_⟩, rfl⟩
  have hpos : (0 : Rat) < 2 ^ (-1074 : Int) := zpow_pos two_pos _
  have hnonneg := div_nonneg hv hpos.le
  refine .of_lt ?_ ?_
  · rw [Nat.cast_zero]
    linarith
  · rw [Nat.cast_zero, zero_add, one_div, div_lt_iff₀ hpos]
    refine hlt.trans_eq ?_
    rw [← zpow_neg_one, ← zpow_add₀ two_ne_zero]
    rfl

/-! ## Decimals -/

theorem isNearest_mul_ten_pow (hm : m ≠ 0) (e : Nat) :
    IsNearest (m * 10 ^ e) (.ofModel (.pack (UnpackedFloat.roundWithAccuracy .binary64 .positive
      (m <<< 53 * 10 ^ e) (-53) .exact))) := by
  have hpos : 0 < m * 10 ^ e := Nat.mul_pos (Nat.pos_of_ne_zero hm) (Nat.pow_pos (by decide))
  have hlog : 53 ≤ (m <<< 53 * 10 ^ e).log2 := by
    rw [Nat.shiftLeft_eq, Nat.mul_right_comm, Nat.le_log2 (by positivity)]
    exact Nat.le_mul_of_pos_left _ hpos
  have h := isNearest_roundWithAccuracy_exact (m := m <<< 53 * 10 ^ e) (e := -53) (by omega)
  have hvalue : ((m <<< 53 * 10 ^ e : Nat) : Rat) * 2 ^ (-53 : Int) = m * 10 ^ e := by
    rw [Nat.shiftLeft_eq, Nat.mul_right_comm]
    push_cast
    norm_num
    ring
  rwa [hvalue] at h

private theorem isNearest_div_ten_pow (hm : m ≠ 0) (e : Nat) :
    IsNearest (m / 10 ^ e) (.ofModel (.pack (UnpackedFloat.div .binary64
      (.finite .positive m 0 (Nat.pos_of_ne_zero hm))
      (.finite .positive (10 ^ e) 0 (Nat.pow_pos (by decide)))))) := by
  have h := isNearest_divCore hm (Nat.pow_pos (by decide) : 0 < 10 ^ e).ne' 0 0
  rw [zpow_zero, mul_one, mul_one, Nat.cast_pow, Nat.cast_ofNat] at h
  exact h

private theorem isNearest_infinity (hm : m ≠ 0) (he : 2048 < e) :
    IsNearest (m * 10 ^ e) infinity := by
  have hm1 : (1 : Rat) ≤ m := by exact_mod_cast Nat.one_le_iff_ne_zero.mpr hm
  have hpower : (2 : Rat) ^ (1024 : Int) ≤ m * 10 ^ e :=
    calc (2 : Rat) ^ 1024
      _ ≤ 10 ^ 1024 := pow_le_pow_left₀ two_pos.le (by norm_num) _
      _ ≤ 10 ^ e := pow_le_pow_right₀ (by norm_num) (by omega)
      _ ≤ m * 10 ^ e := le_mul_of_one_le_left (by positivity) hm1
  have h := isNearest_nearest (m * 10 ^ e) 0
  rw [Nat.cast_mul, Nat.cast_pow, Nat.cast_ofNat, zpow_zero, mul_one] at h
  rwa [h.eq_infinity hpower] at h

private theorem mul_ten_zpow_lt {e : Int} (he : e < -(2048 + (m.log2 : Int))) :
    (m : Rat) * 10 ^ e < 2 ^ (-1075 : Int) := by
  have hm : (m : Rat) < 2 ^ ((m.log2 : Int) + 1) := by
    exact_mod_cast (Nat.lt_log2_self : m < 2 ^ (m.log2 + 1))
  have hten : (10 : Rat) ^ e ≤ 2 ^ e := by
    obtain ⟨k, rfl⟩ : ∃ k : Nat, e = -k := ⟨e.natAbs, by omega⟩
    rw [zpow_neg, zpow_neg, zpow_natCast, zpow_natCast]
    exact inv_anti₀ (by positivity) (pow_le_pow_left₀ two_pos.le (by norm_num) k)
  calc (m : Rat) * 10 ^ e
    _ ≤ m * 2 ^ e := mul_le_mul_of_nonneg_left hten (Nat.cast_nonneg m)
    _ < 2 ^ ((m.log2 : Int) + 1) * 2 ^ e := mul_lt_mul_of_pos_right hm (zpow_pos two_pos e)
    _ = 2 ^ ((m.log2 : Int) + 1 + e) := (zpow_add₀ two_ne_zero _ _).symm
    _ ≤ 2 ^ (-1075 : Int) := two_zpow_le (by omega)

private theorem isNearest_model_ofScientific (m : Nat) (e : Int) :
    IsNearest (m * 10 ^ e) (.ofModel (.ofScientific m e)) := by
  rw [Float.Model.ofScientific, UnpackedFloat.ofScientific]
  split
  next hm =>
    rw [hm, Nat.cast_zero, zero_mul]
    exact .zero
  next hm =>
    split
    next hbig =>
      have he : 2048 < e := hbig
      lift e to Nat using by omega
      rw [zpow_natCast]
      exact isNearest_infinity hm (by omega)
    next =>
      split
      next hsmall => exact isNearest_zero (by positivity) (mul_ten_zpow_lt hsmall)
      next =>
        split
        next he =>
          lift e to Nat using he
          rw [zpow_natCast]
          exact isNearest_mul_ten_pow hm e
        next he =>
          have hvalue : (m : Rat) * 10 ^ e = m / 10 ^ (-e).toNat := by
            rw [← zpow_natCast, Int.toNat_of_nonneg (by omega), zpow_neg, div_inv_eq_mul]
          rw [hvalue]
          exact isNearest_div_ten_pow hm _

private theorem isNearest_ofScientific (m : Nat) (negative : Bool) (e : Nat) :
    IsNearest (m * 10 ^ (if negative then Int.negOfNat e else Int.ofNat e))
      (Float.ofScientific m negative e) := by
  rw [Float.ofScientific]
  by_cases h : m < 2 ^ 53 ∧ e ≤ 22
  · rw [dif_pos h]
    have hm : HasValue m.toUInt64.toFloat m := toFloat_toUInt64 h.1 ▸ hasValue_ofNat h.1.le
    have he := hasValue_powersOfTen ⟨e, Nat.lt_succ_of_le h.2⟩
    cases negative
    · exact hm.mul he
    · have hvalue : (m : Rat) * 10 ^ Int.negOfNat e = m / 10 ^ e := by
        rw [Int.negOfNat_eq, Int.ofNat_eq_natCast, zpow_neg, zpow_natCast, div_eq_mul_inv]
      show IsNearest (m * 10 ^ Int.negOfNat e) _
      rw [hvalue]
      exact hm.div he (by positivity)
  · rw [dif_neg h]
    exact isNearest_model_ofScientific m _

def Decimal.value (d : Decimal) : Rat := d.significand * 10 ^ d.exponent

/-- **A decimal becomes the double nearest to it.** -/
theorem Decimal.isNearest_toFloat (d : Decimal) : IsNearest d.value d.toFloat := by
  obtain ⟨m, e | e⟩ := d
  · exact isNearest_ofScientific m false e
  · exact isNearest_ofScientific m true (e + 1)

end HtmlTemplate.Number

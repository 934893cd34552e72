import HtmlTemplate.Number.Exact
import Mathlib.Algebra.Order.Field.Power
import Mathlib.Algebra.Order.Ring.Rat
import Mathlib.Tactic.FieldSimp
import Mathlib.Tactic.Linarith
import Mathlib.Tactic.NormNum
import Mathlib.Tactic.Positivity
import Mathlib.Tactic.Ring

/-!
# Rounding to the nearest

The format's rounding shifts a mantissa to the right, keeps one bit of what falls out and whether
there was more, and decides by these two. They are enough (`Represents`): the outcome is the nearest
multiple of the grid that the value has 53 binary digits on, and of two the even one
(`exists_rounds_of_represents`). The outcome depends on the value alone (`Rounds.unique`), which is
why two calculations that stand for one rational number end in one double.

## Grids

A number is rounded on the coarsest grid on which it has 53 binary digits, or on the least one.
There is one such grid (`IsGridOf.unique`), and multiplying by a power of two takes grids to grids.
The shift of the format is chosen from the digits of the mantissa that it is given, and comes to the
same grid if the mantissa is long enough.

## A carry

Rounding up can make a mantissa one digit too long. It is a power of two then, so that one more
shift loses nothing, and what is rounded lies on the next coarser grid as well.
-/

namespace HtmlTemplate.Number

open Float.Model (UnpackedFloat Format totalExponent)
open Float.Model.UnpackedFloat (Sign Accuracy ExtendedMantissa accuracyOfFraction decreaseExponent
  roundWithAccuracy shiftToTargetExponent shiftToExponent)

/-! ## The nearest natural number -/

/-- The natural number is nearest to `x`, and it is even if another one is as near. -/
structure IsNearestNat (x : Rat) (n : Nat) : Prop where
  lower : n - 1 / 2 ≤ x
  upper : x ≤ n + 1 / 2
  even : x = n - 1 / 2 ∨ x = n + 1 / 2 → n % 2 = 0

namespace IsNearestNat

variable {x : Rat} {n k : Nat}

theorem of_lt (hlower : n - 1 / 2 < x) (hupper : x < n + 1 / 2) : IsNearestNat x n where
  lower := hlower.le
  upper := hupper.le
  even h := absurd h (not_or.mpr ⟨hlower.ne', hupper.ne⟩)

theorem natCast (n : Nat) : IsNearestNat n n := of_lt (by linarith) (by linarith)

private theorem le (hn : IsNearestNat x n) (hk : IsNearestNat x k) : n ≤ k := by
  by_contra! hlt
  have hle : (k : Rat) + 1 ≤ n := by exact_mod_cast hlt
  -- both are half away, so both are even
  have hx : x = n - 1 / 2 := by linarith [hn.lower, hk.upper]
  have hsucc : n = k + 1 := by
    have : (n : Rat) = k + 1 := by linarith [hn.lower, hk.upper]
    exact_mod_cast this
  have hneven := hn.even (.inl hx)
  have hkeven := hk.even (.inr (by linarith [hn.lower, hk.upper]))
  omega

theorem unique (hn : IsNearestNat x n) (hk : IsNearestNat x k) : n = k :=
  Nat.le_antisymm (hn.le hk) (hk.le hn)

end IsNearestNat

/-! ## Mantissas with two further bits -/

def half (bit : Bool) : Rat := if bit then 1 / 2 else 0

private theorem half_nonneg (bit : Bool) : 0 ≤ half bit := by cases bit <;> norm_num [half]

private theorem half_le (bit : Bool) : half bit ≤ 1 / 2 := by cases bit <;> norm_num [half]

/-- The extended mantissa is `x` cut off behind the round bit, and the sticky bit tells whether
anything was cut off. -/
structure Represents (em : ExtendedMantissa) (x : Rat) : Prop where
  le : em.mantissa + half em.roundBit ≤ x
  lt : x < em.mantissa + half em.roundBit + 1 / 2
  sticky : em.stickyBit = true ↔ em.mantissa + half em.roundBit < x

namespace Represents

variable {em : ExtendedMantissa} {x : Rat}

theorem mantissa_le (h : Represents em x) : em.mantissa ≤ x := by
  linarith [h.le, half_nonneg em.roundBit]

theorem lt_mantissa_add_one (h : Represents em x) : x < em.mantissa + 1 := by
  linarith [h.lt, half_le em.roundBit]

/-- The bit that is shifted out becomes the round bit, and the old round bit a sticky one. -/
theorem shiftRightOne (h : Represents em x) : Represents em.shiftRightOne (x / 2) := by
  obtain ⟨m, round, sticky⟩ := em
  have hm : ((m / 2 : Nat) : Rat) + half (m % 2 != 0) = m / 2 := by
    have hdiv : (m : Rat) = 2 * (m / 2 : Nat) + (m % 2 : Nat) := by
      exact_mod_cast (Nat.div_add_mod m 2).symm
    rcases Nat.mod_two_eq_zero_or_one m with h0 | h1
    · rw [h0] at hdiv ⊢
      norm_num [half]
      linarith
    · rw [h1] at hdiv ⊢
      norm_num [half]
      linarith
  have hle := h.mantissa_le
  have hlt := h.lt_mantissa_add_one
  refine ⟨?_, ?_, ?_⟩
  · show ((m / 2 : Nat) : Rat) + half (m % 2 != 0) ≤ x / 2
    rw [hm]
    linarith
  · show x / 2 < ((m / 2 : Nat) : Rat) + half (m % 2 != 0) + 1 / 2
    rw [hm]
    linarith
  · show (round || sticky) = true ↔ ((m / 2 : Nat) : Rat) + half (m % 2 != 0) < x / 2
    rw [hm, div_lt_div_iff_of_pos_right two_pos]
    cases round
    · have hsticky := h.sticky
      simpa only [half, Bool.false_eq_true, if_false, add_zero, Bool.false_or] using hsticky
    · have hround := h.le
      refine iff_of_true rfl ?_
      norm_num [half] at hround
      linarith

theorem shiftRight (h : Represents em x) (k : Nat) : Represents (em >>> k) (x / 2 ^ k) := by
  show Represents (k.repeat ExtendedMantissa.shiftRightOne em) (x / 2 ^ k)
  induction k with
  | zero =>
    rw [pow_zero, div_one]
    exact h
  | succ k ih =>
    have := ih.shiftRightOne
    rwa [div_div, ← pow_succ] at this

theorem ofExact (m : Nat) : Represents (.ofMantissaAndAccuracy m .exact) m where
  le := by norm_num [ExtendedMantissa.ofMantissaAndAccuracy, half]
  lt := by norm_num [ExtendedMantissa.ofMantissaAndAccuracy, half]
  sticky := by norm_num [ExtendedMantissa.ofMantissaAndAccuracy, half]

/-- The remainder of a division tells what is behind the quotient. -/
theorem ofQuotient (n : Nat) {d : Nat} (hd : 0 < d) :
    Represents (.ofMantissaAndAccuracy (n / d) (accuracyOfFraction (n % d) d)) (n / d) := by
  have hpos : (0 : Rat) < d := by exact_mod_cast hd
  have hn : (n : Rat) = (n / d : Nat) * d + (n % d : Nat) := by
    exact_mod_cast (Nat.div_add_mod' n d).symm
  have hr : ((n % d : Nat) : Rat) < d := by exact_mod_cast Nat.mod_lt n hd
  have hr0 : (0 : Rat) ≤ (n % d : Nat) := Nat.cast_nonneg _
  rw [accuracyOfFraction]
  generalize n / d = q, n % d = r at *
  have hx : (n : Rat) / d = q + r / d := by
    rw [hn, add_div, mul_div_cancel_right₀ _ hpos.ne']
  rw [hx]
  split
  next h0 =>
    subst h0
    norm_num
    exact .ofExact q
  next h0 =>
    have hfpos : (0 : Rat) < r / d := div_pos (by exact_mod_cast Nat.pos_of_ne_zero h0) hpos
    have hf1 : (r : Rat) / d < 1 := (div_lt_one hpos).mpr hr
    -- what is behind the quotient is below a half, a half, or above it
    rcases h : compare (2 * r) d with _ | _ | _
    · have hlt : (r : Rat) / d < 1 / 2 := by
        rw [div_lt_div_iff₀ hpos two_pos, one_mul, mul_comm]
        exact_mod_cast Nat.compare_eq_lt.mp h
      refine ⟨?_, ?_, ?_⟩ <;>
        simp only [ExtendedMantissa.ofMantissaAndAccuracy, half, Bool.false_eq_true, if_false,
          true_iff] <;> linarith
    · have heq : (r : Rat) / d = 1 / 2 := by
        rw [div_eq_div_iff hpos.ne' two_ne_zero, one_mul, mul_comm]
        exact_mod_cast Nat.compare_eq_eq.mp h
      refine ⟨?_, ?_, ?_⟩ <;>
        simp only [ExtendedMantissa.ofMantissaAndAccuracy, half, Bool.false_eq_true, if_true,
          false_iff, not_lt] <;> linarith
    · have hgt : 1 / 2 < (r : Rat) / d := by
        rw [div_lt_div_iff₀ two_pos hpos, one_mul, mul_comm]
        exact_mod_cast Nat.compare_eq_gt.mp h
      refine ⟨?_, ?_, ?_⟩ <;>
        simp only [ExtendedMantissa.ofMantissaAndAccuracy, half, if_true, true_iff] <;> linarith

theorem isNearestNat_roundedMantissa (h : Represents em x) : IsNearestNat x em.roundedMantissa := by
  obtain ⟨m, round, sticky⟩ := em
  obtain ⟨hle, hlt, hsticky⟩ := h
  cases round <;> cases sticky <;>
    simp only [half, Bool.false_eq_true, if_true, if_false, false_iff, true_iff, not_lt]
      at hle hlt hsticky
  · obtain rfl : x = m := by linarith
    exact .natCast m
  · show IsNearestNat x m
    exact .of_lt (by linarith) (by linarith)
  · obtain rfl : x = m + 1 / 2 := by linarith
    show IsNearestNat _ (m + m % 2)
    rcases Nat.mod_two_eq_zero_or_one m with h0 | h1
    · rw [h0, Nat.add_zero]
      exact ⟨by linarith, le_rfl, fun _ ↦ h0⟩
    · rw [h1]
      refine ⟨?_, ?_, fun _ ↦ by omega⟩ <;> push_cast <;> linarith
  · show IsNearestNat _ (m + 1)
    refine .of_lt ?_ ?_ <;> push_cast <;> linarith

end Represents

/-! ## The grid of a number -/

/-- The grid `2 ^ t` on which `v` has 53 binary digits; the least grid if it has fewer there. -/
structure IsGridOf (v : Rat) (t : Int) : Prop where
  le : -1074 ≤ t
  lt : v < 2 ^ (t + 53)
  normal : t = -1074 ∨ (2 : Rat) ^ (t + 52) ≤ v

theorem lt_of_two_zpow_lt {a b : Int} (h : (2 : Rat) ^ a < 2 ^ b) : a < b :=
  (zpow_lt_zpow_iff_right₀ one_lt_two).mp h

theorem two_zpow_le {a b : Int} (h : a ≤ b) : (2 : Rat) ^ a ≤ 2 ^ b :=
  zpow_le_zpow_right₀ one_le_two h

theorem IsGridOf.not_lt {v : Rat} {t t' : Int} (h : IsGridOf v t) (h' : IsGridOf v t') :
    ¬t < t' := by
  intro hlt
  rcases h'.normal with heq | hle
  · have := h.le
    omega
  · have := lt_of_two_zpow_lt (hle.trans_lt h.lt)
    omega

theorem IsGridOf.unique {v : Rat} {t t' : Int} (h : IsGridOf v t) (h' : IsGridOf v t') :
    t = t' := by
  have := h.not_lt h'
  have := h'.not_lt h
  omega

theorem targetExponent_int (t : Int) : Format.binary64.targetExponent t = max (t - 53) (-1074) :=
  rfl

theorem targetExponent_eq (m : Nat) (e : Int) :
    Format.binary64.targetExponent (totalExponent m e) = max (m.log2 + e - 52) (-1074) := by
  rw [targetExponent_int]
  show max ((m.log2 : Int) + 1 + e - 53) (-1074) = _
  omega

variable {v : Rat} {m : Nat} {e : Int} {a : Accuracy}

theorem isGridOf_of_represents {em : ExtendedMantissa} (h : Represents em (v / 2 ^ e))
    (he : e ≤ max (em.mantissa.log2 + e - 52) (-1074)) :
    IsGridOf v (max (em.mantissa.log2 + e - 52) (-1074)) := by
  set m := em.mantissa with hm
  have hpos : (0 : Rat) < 2 ^ e := zpow_pos two_pos e
  have hlower : m * (2 : Rat) ^ e ≤ v := (le_div_iff₀ hpos).mp h.mantissa_le
  have hupper : v < (m + 1) * (2 : Rat) ^ e := (div_lt_iff₀ hpos).mp h.lt_mantissa_add_one
  refine ⟨le_max_right _ _, ?_, ?_⟩
  · have hlog : (m : Rat) + 1 ≤ 2 ^ ((m.log2 : Int) + 1) := by
      rw [← Int.natCast_succ, zpow_natCast]
      exact_mod_cast (Nat.lt_log2_self : m < 2 ^ (m.log2 + 1))
    calc v
      _ < (m + 1) * (2 : Rat) ^ e := hupper
      _ ≤ 2 ^ ((m.log2 : Int) + 1) * 2 ^ e := mul_le_mul_of_nonneg_right hlog hpos.le
      _ = 2 ^ ((m.log2 : Int) + 1 + e) := (zpow_add₀ two_ne_zero _ _).symm
      _ ≤ _ := two_zpow_le (by omega)
  · rcases eq_or_ne (max ((m.log2 : Int) + e - 52) (-1074)) (-1074) with heq | hne
    · exact .inl heq
    · -- above the least grid there are 53 digits at least
      have hm0 : m ≠ 0 := by
        intro h0
        rw [h0] at he hne
        simp only [Nat.log2_zero, Nat.cast_zero] at he hne
        omega
      have hlog : (2 : Rat) ^ (m.log2 : Int) ≤ m := by
        rw [zpow_natCast]
        exact_mod_cast Nat.log2_self_le hm0
      refine .inr ?_
      calc (2 : Rat) ^ (max ((m.log2 : Int) + e - 52) (-1074) + 52)
        _ = 2 ^ ((m.log2 : Int) + e) := by
          congr 1
          omega
        _ = 2 ^ (m.log2 : Int) * 2 ^ e := zpow_add₀ two_ne_zero _ _
        _ ≤ m * (2 : Rat) ^ e := mul_le_mul_of_nonneg_right hlog hpos.le
        _ ≤ v := hlower

/-! ## Rounding -/

def rounded (s : Sign) (n : Nat) (t : Int) : UnpackedFloat :=
  if h : n = 0 then .zero s
  else if n < 2 ^ 53 then .finite s n t (Nat.pos_of_ne_zero h)
  else .finite s (2 ^ 52) (t + 1) (by decide)

/-- `n · 2 ^ t` is `v` rounded to 53 binary digits, ties to even. -/
structure Rounds (v : Rat) (n : Nat) (t : Int) : Prop where
  grid : IsGridOf v t
  nearest : IsNearestNat (v / 2 ^ t) n

theorem Rounds.of_scaled {y : Rat} {n : Nat} {t : Int} (hle : -1074 ≤ t) (hlt : y < 2 ^ 53)
    (hnormal : t = -1074 ∨ 2 ^ 52 ≤ y) (hnearest : IsNearestNat y n) : Rounds (y * 2 ^ t) n t := by
  have hpos : (0 : Rat) < 2 ^ t := zpow_pos two_pos t
  refine ⟨⟨hle, ?_, hnormal.imp_right fun h ↦ ?_⟩, ?_⟩
  · rw [zpow_add₀ two_ne_zero, mul_comm]
    exact mul_lt_mul_of_pos_left (by exact_mod_cast hlt) hpos
  · rw [zpow_add₀ two_ne_zero, mul_comm]
    exact mul_le_mul_of_nonneg_right (by exact_mod_cast h) hpos.le
  · rwa [mul_div_cancel_right₀ _ hpos.ne']

theorem Rounds.unique {n n' : Nat} {t t' : Int} (h : Rounds v n t) (h' : Rounds v n' t') :
    n = n' ∧ t = t' := by
  obtain rfl := h.grid.unique h'.grid
  exact ⟨h.nearest.unique h'.nearest, rfl⟩

theorem Rounds.le {n : Nat} {t : Int} (h : Rounds v n t) : n ≤ 2 ^ 53 := by
  have hpos : (0 : Rat) < 2 ^ t := zpow_pos two_pos t
  have hlt : v / 2 ^ t < 2 ^ 53 := by
    rw [div_lt_iff₀ hpos]
    calc v
      _ < 2 ^ (t + 53) := h.grid.lt
      _ = 2 ^ t * 2 ^ (53 : Int) := zpow_add₀ two_ne_zero _ _
      _ = 2 ^ 53 * 2 ^ t := mul_comm _ _
  have hlower := h.nearest.lower
  by_contra! hgt
  have hsucc : (2 : Rat) ^ 53 + 1 ≤ n := by exact_mod_cast hgt
  linarith

theorem Rounds.two_pow_le {n : Nat} {t : Int} (h : Rounds v n t) : 2 ^ 52 ≤ n ∨ t = -1074 := by
  refine h.grid.normal.symm.imp_left fun hv ↦ ?_
  have hupper := h.nearest.upper
  rw [zpow_add₀ two_ne_zero, mul_comm, ← le_div_iff₀ (zpow_pos two_pos t)] at hv
  norm_num at hv hupper
  have hlt : ((2 ^ 52 : Nat) : Rat) < n + 1 := by
    push_cast
    linarith
  exact Nat.le_of_lt_succ (by exact_mod_cast hlt)

theorem shiftToTargetExponent_rounded (s : Sign) {n : Nat} {t : Int} (hn : n ≤ 2 ^ 53)
    (ht : -1074 ≤ t) :
    (if h : (shiftToTargetExponent .binary64 n t .exact).1.mantissa = 0 then UnpackedFloat.zero s
      else .finite s (shiftToTargetExponent .binary64 n t .exact).1.mantissa
        (shiftToTargetExponent .binary64 n t .exact).2 (Nat.pos_of_ne_zero h)) = rounded s n t := by
  rcases Nat.lt_or_eq_of_le hn with hlt | rfl
  · have hlog : n.log2 ≤ 52 := by
      rcases Nat.eq_zero_or_pos n with rfl | hpos
      · simp
      · exact Nat.le_of_lt_succ ((Nat.log2_lt hpos.ne').mpr hlt)
    have hshift : shiftToTargetExponent .binary64 n t .exact = (⟨n, false, false⟩, t) := by
      rw [shiftToTargetExponent, targetExponent_eq, shiftToExponent]
      have : (max ((n.log2 : Int) + t - 52) (-1074) - t).toNat = 0 := by omega
      rw [this]
      exact Prod.ext rfl (Int.add_zero t)
    rw [hshift, rounded]
    refine dite_congr rfl (fun _ ↦ rfl) fun _ ↦ ?_
    rw [if_pos hlt]
  · have hshift : shiftToTargetExponent .binary64 (2 ^ 53) t .exact =
        (⟨2 ^ 52, false, false⟩, t + 1) := by
      rw [shiftToTargetExponent, targetExponent_eq, shiftToExponent, Nat.log2_two_pow]
      have : (max (((53 : Nat) : Int) + t - 52) (-1074) - t).toNat = 1 := by omega
      rw [this]
      rfl
    rw [hshift]
    rfl

/-- **The rounding of the format is rounding to the nearest.** The exact value lies behind the
mantissa as its accuracy says, and the mantissa must not be too short. -/
theorem exists_rounds_of_represents (s : Sign)
    (h : Represents (.ofMantissaAndAccuracy m a) (v / 2 ^ e))
    (he : e ≤ max (m.log2 + e - 52) (-1074)) :
    ∃ n t, Rounds v n t ∧ roundWithAccuracy .binary64 s m e a = rounded s n t := by
  have hm : (ExtendedMantissa.ofMantissaAndAccuracy m a).mantissa = m := by
    rcases a with _ | _ | _ | _ <;> rfl
  set t := max ((m.log2 : Int) + e - 52) (-1074) with ht
  have hgrid : IsGridOf v t := by
    have := isGridOf_of_represents h
    rw [hm] at this
    exact this he
  have hfirst : shiftToTargetExponent .binary64 m e a =
      (ExtendedMantissa.ofMantissaAndAccuracy m a >>> (t - e).toNat, t) := by
    rw [shiftToTargetExponent, targetExponent_eq, shiftToExponent]
    exact Prod.ext rfl (by show e + ((t - e).toNat : Int) = t; omega)
  have hscale : v / 2 ^ e / 2 ^ (t - e).toNat = v / 2 ^ t := by
    rw [div_div, ← zpow_natCast, Int.toNat_of_nonneg (by omega), ← zpow_add₀ two_ne_zero]
    congr 2
    omega
  have hshifted := h.shiftRight (t - e).toNat
  rw [hscale] at hshifted
  have hrounds : Rounds v _ t := ⟨hgrid, hshifted.isNearestNat_roundedMantissa⟩
  refine ⟨_, t, hrounds, ?_⟩
  rw [roundWithAccuracy, hfirst]
  exact shiftToTargetExponent_rounded s hrounds.le hgrid.le

theorem log2_shiftLeft (hm : m ≠ 0) (k : Nat) : (m <<< k).log2 = m.log2 + k := by
  induction k with
  | zero => rfl
  | succ k ih =>
    have hne : m <<< k ≠ 0 := by
      rw [Nat.shiftLeft_eq]
      exact Nat.mul_ne_zero hm (Nat.two_pow_pos k).ne'
    rw [Nat.shiftLeft_succ, Nat.log2_two_mul hne, ih, Nat.add_assoc]

theorem exists_rounds_round (s : Sign) (hm : m ≠ 0) (e : Int) :
    ∃ n t, Rounds (m * 2 ^ e) n t ∧ UnpackedFloat.round .binary64 s m e = rounded s n t := by
  set k := (e - max ((m.log2 : Int) + e - 52) (-1074)).toNat with hk
  have hround : UnpackedFloat.round .binary64 s m e =
      roundWithAccuracy .binary64 s (m <<< k) (e - k) .exact := by
    rw [UnpackedFloat.round, targetExponent_eq, decreaseExponent]
  have hvalue : (m : Rat) * 2 ^ e / 2 ^ (e - k) = (m <<< k : Nat) := by
    rw [mul_div_assoc, ← zpow_sub₀ two_ne_zero, sub_sub_cancel, zpow_natCast, Nat.shiftLeft_eq]
    push_cast
    rfl
  rw [hround]
  refine exists_rounds_of_represents s (hvalue ▸ .ofExact _) ?_
  rw [log2_shiftLeft hm]
  omega

end HtmlTemplate.Number

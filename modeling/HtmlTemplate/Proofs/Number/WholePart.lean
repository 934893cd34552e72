import HtmlTemplate.Proofs.Number.Integers
import Mathlib.Data.Rat.Floor

/-!
# Numbers cut toward zero

Positions and counts are doubles of any size. Cut toward zero a double is an integer, or it is
infinite still (`whole`). A bound on both sides makes an integer of it in any case, and this is the
only form in which the library cuts numbers (`clampTrunc_eq`): the exact integer is never a double
again, so nothing is rounded on the way.

## Two infinities

The integer part of a very large double is an integer that no machine integer holds, and that of an
infinite one is none. Both are cut to the bounds, so no case needs a convention of its own.
-/

namespace HtmlTemplate.Number

variable {x : Float} {z : Int}

def truncate (q : Rat) : Int := if 0 ≤ q then ⌊q⌋ else ⌈q⌉

/-- An integer or one of the two infinities. -/
inductive Whole where
  | infinite (negative : Bool)
  | finite (n : Int)

/-- The integer part of a double. What is not a number counts as zero. -/
def whole (x : Float) : Whole :=
  match exact x with
  | .nan => .finite 0
  | .infinite negative => .infinite negative
  | .finite negative m e => .finite (truncate (if negative then -(m * 2 ^ e) else m * 2 ^ e))

/-- The integer between two bounds that is next to an integer part. -/
def Whole.clamp (low high : Int) : Whole → Int
  | .infinite negative => if negative then low else high
  | .finite n => max low (min high n)

theorem truncate_intCast (z : Int) : truncate z = z := by
  rw [truncate]
  split_ifs
  · exact Int.floor_intCast z
  · exact Int.ceil_intCast z

theorem truncate_of_nonneg {q : Rat} (hq : 0 ≤ q) : truncate q = ⌊q⌋ := if_pos hq

private theorem truncate_neg {q : Rat} (hq : 0 ≤ q) : truncate (-q) = -⌊q⌋ := by
  rcases hq.eq_or_lt with rfl | hpos
  · rw [neg_zero, truncate_of_nonneg le_rfl, Int.floor_zero, neg_zero]
  · rw [truncate, if_neg (by linarith), Int.ceil_neg]

theorem integerPart_eq_floor (m : Nat) (e : Int) :
    (integerPart m e : Int) = ⌊(m : Rat) * 2 ^ e⌋ := by
  rcases e with k | k
  · rw [integerPart, Int.ofNat_eq_natCast, zpow_natCast]
    exact_mod_cast (Int.floor_natCast (R := Rat) (m * 2 ^ k)).symm
  · rw [integerPart, zpow_negSucc, ← div_eq_mul_inv]
    exact_mod_cast (Rat.floor_natCast_div_natCast m (2 ^ (k + 1))).symm

/-- **Numbers are cut toward zero exactly**, and then kept between the bounds. -/
theorem clampTrunc_eq (low high : Int) (x : Float) :
    clampTrunc low high x = (whole x).clamp low high := by
  rw [clampTrunc, whole]
  cases exact x with
  | nan => rfl
  | infinite negative => rfl
  | finite negative m e =>
    have hnonneg : (0 : Rat) ≤ m * 2 ^ e := by positivity
    dsimp only
    rw [Whole.clamp, integerPart_eq_floor]
    cases negative
    · rw [if_neg Bool.false_ne_true, if_neg Bool.false_ne_true, truncate_of_nonneg hnonneg]
    · rw [if_pos rfl, if_pos rfl, truncate_neg hnonneg]

theorem StandsFor.whole_eq (h : StandsFor x z) : whole x = .finite z := by
  obtain ⟨negative, m, e, hx, hv⟩ := h
  rw [whole, hx]
  dsimp only
  rw [hv, truncate_intCast]

theorem whole_nan : whole nan = .finite 0 := rfl

end HtmlTemplate.Number

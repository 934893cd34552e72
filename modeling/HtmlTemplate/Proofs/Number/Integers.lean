import HtmlTemplate.Number.Reading
import HtmlTemplate.Proofs.Number.Digits
import HtmlTemplate.Proofs.Number.Shortest

/-!
# Integers as numbers

A natural number up to `2 ^ 53`, behind a minus or without, is a double whose integer part is that
number (`clampTrunc_ofNat`) and whose text is its decimal digits (`text_withSign`), although the
shortest decimal that they come from may have dropped zeros at the end.

## Zeros at the end

The shortest decimal of a large integer can have fewer digits than the integer, with an exponent for
the rest. Up to `2 ^ 53` it stands for the integer exactly, and laying it out without an exponent
puts the zeros back.
-/

namespace HtmlTemplate.Number

variable {x : Float} {m n : Nat} {e : Int}

/-! ## Integer parts -/

theorem eq_mul_twoPow {k : Nat} (h : (m : Rat) * 2 ^ Int.negSucc k = n) :
    m = n * twoPow (k + 1) := by
  rw [zpow_negSucc, ← div_eq_mul_inv, div_eq_iff (by positivity)] at h
  exact_mod_cast h

theorem integerPart_of_value (h : (m : Rat) * 2 ^ e = n) : integerPart m e = n := by
  rcases e with k | k
  · rw [Int.ofNat_eq_natCast, zpow_natCast] at h
    exact_mod_cast h
  · rw [integerPart, eq_mul_twoPow h]
    exact Nat.mul_div_cancel n (Nat.pow_pos (by decide))

theorem isIntegral_of_value (h : (m : Rat) * 2 ^ e = n) : isIntegral m e = true := by
  rcases e with k | k
  · rfl
  · rw [isIntegral, eq_mul_twoPow h, Nat.mul_mod_left]
    rfl

theorem exists_exact_withSign (negative : Bool) (hn : n ≤ 2 ^ 53) :
    ∃ m e, exact (withSign negative (ofNat n)) = .finite negative m e ∧ (m : Rat) * 2 ^ e = n := by
  obtain ⟨m, e, hx, hv⟩ := hasValue_ofNat hn
  refine ⟨m, e, ?_, hv⟩
  cases negative
  · exact hx
  · exact exact_neg hx

theorem clampTrunc_ofNat (low high : Int) (hn : n ≤ 2 ^ 53) :
    clampTrunc low high (ofNat n) = max low (min high n) := by
  obtain ⟨m, e, hx, hv⟩ := hasValue_ofNat hn
  rw [clampTrunc, hx]
  dsimp only
  rw [integerPart_of_value hv]
  rfl

/-! ## Integers -/

/-- The double stands for the integer. Zeros of both signs stand for zero. -/
def StandsFor (x : Float) (z : Int) : Prop :=
  ∃ negative m e, exact x = .finite negative m e ∧
    (if negative then -(m * 2 ^ e) else m * 2 ^ e : Rat) = z

theorem standsFor_ofNat (hn : n ≤ 2 ^ 53) : StandsFor (ofNat n) n := by
  obtain ⟨m, e, hx, hv⟩ := hasValue_ofNat hn
  exact ⟨false, m, e, hx, hv⟩

theorem StandsFor.exists_eq_withSign {z : Int} (h : StandsFor x z) (hz : z.natAbs ≤ 2 ^ 53) :
    ∃ negative, x = withSign negative (ofNat z.natAbs) ∧
      (negative && z.natAbs != 0) = decide (z < 0) := by
  obtain ⟨negative, m, e, hx, hv⟩ := h
  have hnonneg : (0 : Rat) ≤ m * 2 ^ e := by positivity
  cases negative
  · have hz0 : 0 ≤ z := by exact_mod_cast hnonneg.trans_eq hv
    obtain ⟨n, rfl⟩ := Int.eq_ofNat_of_zero_le hz0
    refine ⟨false, HasValue.unique ⟨m, e, hx, hv⟩ (hasValue_ofNat hz), ?_⟩
    rw [Bool.false_and, decide_eq_false (by omega)]
  · have hz0 : z ≤ 0 := by exact_mod_cast hv.symm.trans_le (neg_nonpos.mpr hnonneg)
    have hv' : (m : Rat) * 2 ^ e = z.natAbs := by
      have habs : (z.natAbs : Rat) = -z := by
        rw [← Int.cast_natCast, Int.ofNat_natAbs_of_nonpos hz0, Int.cast_neg]
      rw [habs, ← hv, if_pos rfl, neg_neg]
    have hneg : -x = ofNat z.natAbs :=
      HasValue.unique ⟨m, e, exact_neg hx, hv'⟩ (hasValue_ofNat hz)
    refine ⟨true, ?_, ?_⟩
    · rw [withSign, if_pos rfl, ← hneg, neg_neg_of_exact hx]
    · rw [Bool.true_and, Bool.eq_iff_iff, bne_iff_ne, decide_eq_true_eq]
      omega

/-! ## Texts -/

private theorem length_decimalDigits_le (hn : n ≤ 2 ^ 53) : (decimalDigits n).length ≤ 21 :=
  (Nat.length_toDigits_le_iff (by decide) (by decide)).mpr (hn.trans_lt (by decide))

theorem Decimal.text_of_natCast {k g : Nat} (hk : 0 < k) (h : k * 10 ^ g = n) (hn : n ≤ 2 ^ 53) :
    (⟨k, g⟩ : Decimal).text = decimalDigits n := by
  have hdigits := decimalDigits_mul_ten_pow hk g
  have hlen := congrArg List.length hdigits
  have hle := length_decimalDigits_le hn
  rw [List.length_append, zeros, List.length_replicate] at hlen
  rw [h] at hdigits hlen
  have hpoint : (⟨k, g⟩ : Decimal).point = (decimalDigits n).length := by
    rw [point, hlen]
    push_cast
    rfl
  rw [text, if_pos (by omega), hdigits]
  rfl

/-- **The text of an integer is its decimal digits**, with a minus in front if it is below zero. -/
theorem text_withSign (negative : Bool) (hn : n ≤ 2 ^ 53) :
    text (withSign negative (ofNat n)) =
      String.ofList (signText (negative && n != 0) ++ decimalDigits n) := by
  rcases Nat.eq_zero_or_pos n with rfl | hpos
  · cases negative <;> rfl
  · obtain ⟨m, e, k, g, hx, hm, hshortest, hk⟩ :=
      exists_shortest_natCast (hasValue_ofNat hn) hpos hn
    have hkpos : 0 < k := by
      refine Nat.pos_of_ne_zero ?_
      rintro rfl
      omega
    have hexact : exact (withSign negative (ofNat n)) = .finite negative m e := by
      cases negative
      · exact hx
      · exact exact_neg hx
    rw [text, chars, hexact]
    dsimp only
    rw [if_neg hm, hshortest, Decimal.text_of_natCast hkpos hk hn, bne_iff_ne.mpr hpos.ne',
      Bool.and_true]

theorem text_ofNat (hn : n ≤ 2 ^ 53) : text (ofNat n) = String.ofList (decimalDigits n) :=
  text_withSign false hn

end HtmlTemplate.Number

import HtmlTemplate.Proofs.Number.Integers
import HtmlTemplate.Value.Call

/-!
# Integers in other bases

The text of an integer in a base is an optional minus and the digits of the base (`radixText_eq`).
The digits are added up in floating point when they are read, and no sum on the way is larger than
the number itself, so that every step is exact (`hasValue_sumDigits`) and the integer is read back.

## The bound

Up to `2 ^ 53` an integer is a double, the digits are exact, and so is every sum of them on the way
back, as it is not larger than the integer. A sign is put in front of the digits and taken off
before they are read.
-/

namespace HtmlTemplate

open Number (HasValue StandsFor digitChar digitValue hasValue_ofNat isDigitOf ofDigits ofNat
  radixDigits signText withSign)

variable {base n : Nat} {x : Float}

/-! ## Writing -/

theorem radixArgument_ofNat (le : base ≤ 36) : radixArgument (.number (ofNat base)) = base := by
  have hclamp : radixArgument (.number (ofNat base)) = Number.clampTrunc 0 37 (ofNat base) := rfl
  rw [hclamp, Number.clampTrunc_ofNat 0 37 (by omega)]
  omega

/-- **An integer is written with the digits of the base**, behind a minus if it is below zero. -/
theorem radixText_eq {z : Int} (hx : StandsFor x z) (hz : z.natAbs ≤ 2 ^ 53) (two_le : 2 ≤ base)
    (le : base ≤ 36) :
    radixText x base =
      .ok (String.ofList (signText (z < 0) ++ radixDigits base z.natAbs two_le)) := by
  obtain ⟨negative, rfl, hsign⟩ := hx.exists_eq_withSign hz
  obtain ⟨m, e, hexact, hv⟩ := Number.exists_exact_withSign negative hz
  rw [radixText, dif_pos (by omega), hexact, ← hsign]
  dsimp only
  split
  next hten =>
    obtain rfl : base = 10 := by omega
    rw [Number.text_withSign negative hz, Number.decimalDigits_eq]
  next =>
    rw [Number.isIntegral_of_value hv, Number.integerPart_of_value hv,
      if_pos (by rwa [Bool.true_and, decide_eq_true_eq])]
    simp only [Int.toNat_natCast]

/-! ## Reading -/

theorem Number.sumDigits_append_singleton (base : Nat) (ds : List Char) (c : Char) :
    sumDigits base (ds ++ [c]) = sumDigits base ds * ofNat base + ofNat (digitValue c) :=
  List.foldl_append

theorem hasValue_sumDigits (two_le : 2 ≤ base) (le : base ≤ 36) {ds : List Char}
    (digits : ∀ c ∈ ds, isDigitOf base c = true) (h : ofDigits base ds ≤ 2 ^ 53) :
    HasValue (Number.sumDigits base ds) (ofDigits base ds) := by
  induction ds using List.reverseRecOn with
  | nil => exact hasValue_ofNat (n := 0) (Nat.zero_le _)
  | append_singleton ds c ih =>
    have hc : digitValue c < base := of_decide_eq_true (digits c (by simp))
    rw [Number.ofDigits_append, Number.ofDigits_singleton, List.length_singleton, Nat.pow_one] at h
    have hle : ofDigits base ds ≤ ofDigits base ds * base := Nat.le_mul_of_pos_right _ (by omega)
    have ih := ih (fun c' hc' ↦ digits c' (List.mem_append_left _ hc')) (by omega)
    have hmul := ih.mul_natCast (hasValue_ofNat (by omega : base ≤ 2 ^ 53)) (by omega)
    rw [Number.sumDigits_append_singleton, Number.ofDigits_append, Number.ofDigits_singleton,
      List.length_singleton, Nat.pow_one]
    exact hmul.add_natCast (hasValue_ofNat (by omega)) h

theorem digitChar_spec {k : Nat} (hk : k < 36) : Text.isBlank (digitChar k) = false ∧
    digitChar k ≠ '-' ∧ digitChar k ≠ '+' ∧
    (k < 16 → digitChar k ≠ 'x' ∧ digitChar k ≠ 'X') := by
  have hall : ∀ k : Fin 36, Text.isBlank (digitChar k) = false ∧ digitChar k ≠ '-' ∧
      digitChar k ≠ '+' ∧ (k.val < 16 → digitChar k ≠ 'x' ∧ digitChar k ≠ 'X') := by decide
  exact hall ⟨k, hk⟩

private theorem scanSign_radixDigits (negative : Bool) (two_le : 2 ≤ base) (le : base ≤ 36)
    (n : Nat) :
    Number.Decimal.scanSign (Text.trimStart (signText negative ++ radixDigits base n two_le)) =
      (negative, radixDigits base n two_le) := by
  obtain ⟨c, ds, hds, -⟩ := Number.exists_radixDigits_eq_cons two_le le n
  obtain ⟨k, hk, rfl⟩ := Number.exists_of_mem_radixDigits (hds ▸ List.mem_cons_self :
    c ∈ radixDigits base n two_le)
  obtain ⟨hblank, hminus, hplus, -⟩ := digitChar_spec (hk.trans_le le)
  rw [hds]
  cases negative
  · rw [signText, if_neg Bool.false_ne_true, List.nil_append,
      Text.trimStart_cons_of_not_blank _ hblank]
    unfold Number.Decimal.scanSign
    split
    · rename_i heq
      exact absurd (List.cons.inj heq).1 hminus
    · rename_i heq
      exact absurd (List.cons.inj heq).1 hplus
    · rfl
  · rfl

private theorem dropHexMark_radixDigits {two_le : 2 ≤ base} (le : base ≤ 16) :
    Number.dropHexMark (radixDigits base n two_le) = none := by
  have hno {c : Char} (hc : c ∈ radixDigits base n two_le) : c ≠ 'x' ∧ c ≠ 'X' := by
    obtain ⟨k, hk, rfl⟩ := Number.exists_of_mem_radixDigits hc
    exact (digitChar_spec (by omega)).2.2.2 (by omega)
  unfold Number.dropHexMark
  split
  · rename_i heq
    exact absurd rfl (hno (c := 'x') (by simp [heq])).1
  · rename_i heq
    exact absurd rfl (hno (c := 'X') (by simp [heq])).2
  · rfl

/-- **The digits of a base are read back**, behind a minus or without. -/
theorem integerInFront_eq (negative : Bool) (hn : n ≤ 2 ^ 53) (two_le : 2 ≤ base)
    (le : base ≤ 36) :
    Number.integerInFront (String.ofList (signText negative ++ radixDigits base n two_le)) base =
      withSign negative (ofNat n) := by
  have hdigits : ∀ c ∈ radixDigits base n two_le, isDigitOf base c = true :=
    fun c ↦ Number.isDigitOf_of_mem_radixDigits le
  have hmark : (if (base : Int) = 0 ∨ (base : Int) = 16 then
      Number.dropHexMark (radixDigits base n two_le) else none) = none := by
    split
    · exact dropHexMark_radixDigits (by omega)
    · rfl
  have hbase : (if (base : Int) = 0 then 10 else (base : Int).toNat) = base := by
    rw [if_neg (by omega), Int.toNat_natCast]
  have hvalue := Number.ofDigits_radixDigits two_le le n
  have hsum := hasValue_sumDigits two_le le hdigits (hvalue.symm ▸ hn)
  rw [hvalue] at hsum
  rw [Number.integerInFront, String.toList_ofList, scanSign_radixDigits negative two_le le]
  dsimp only
  rw [if_neg (by omega), hmark]
  dsimp only
  rw [hbase, List.takeWhile_eq_self_iff.mpr hdigits,
    if_neg (by simpa using Number.radixDigits_ne_nil two_le le n),
    hsum.unique (hasValue_ofNat hn)]

/-! ## The round trip -/

namespace Builtin

private theorem call_parseInt (text : String) (le : base ≤ 36) :
    parseInt.call [.string text, .number (Number.ofNat base)] =
      .ok (.number (Number.integerInFront text base)) := by
  have hclamp : Number.clampTrunc (-1) 37 (Number.ofNat base) = base := by
    rw [Number.clampTrunc_ofNat (-1) 37 (by omega)]
    omega
  show Except.ok (Value.number (Number.integerInFront text
    (Number.clampTrunc (-1) 37 (Number.ofNat base)))) = _
  rw [hclamp]

/-- **The text of an integer in a base is read back as the integer.** -/
theorem parseInt_toString {z : Int} (hx : StandsFor x z) (hz : z.natAbs ≤ 2 ^ 53)
    (two_le : 2 ≤ base) (le : base ≤ 36) :
    ∃ digits : List Char,
      Method.toString.ofNumber x [.number (Number.ofNat base)] =
          .ok (.string (String.ofList (signText (z < 0) ++ digits))) ∧
        (digits ≠ [] ∧ (∀ c ∈ digits, isDigitOf base c = true) ∧
          ∀ ds, digits = '0' :: ds → ds = []) ∧
        parseInt.call [.string (String.ofList (signText (z < 0) ++ digits)),
            .number (Number.ofNat base)] =
          .ok (.number (if z = 0 then 0 else x)) := by
  refine ⟨radixDigits base z.natAbs two_le, ?_, ⟨?_, ?_, ?_⟩, ?_⟩
  · show (radixText x (radixArgument (.number (Number.ofNat base)))).map Value.string = _
    rw [radixArgument_ofNat le, radixText_eq hx hz two_le le]
    rfl
  · exact Number.radixDigits_ne_nil two_le le _
  · exact fun c ↦ Number.isDigitOf_of_mem_radixDigits le
  · intro ds hds
    obtain ⟨c, es, hes, hzero⟩ := Number.exists_radixDigits_eq_cons two_le le z.natAbs
    obtain ⟨rfl, rfl⟩ := List.cons.inj (hes.symm.trans hds)
    exact (hzero rfl).2
  · obtain ⟨negative, hsigned, hsign⟩ := hx.exists_eq_withSign hz
    rw [call_parseInt _ le, integerInFront_eq _ hz two_le le]
    split
    next h0 =>
      subst h0
      rfl
    next h0 =>
      rw [← hsign, bne_iff_ne.mpr (Int.natAbs_ne_zero.mpr h0), Bool.and_true, ← hsigned]

theorem parseInt_toString_sixteen : StandsFor (Number.ofNat 255) 255 ∧
    ∃ digits : List Char,
      Method.toString.ofNumber (Number.ofNat 255) [.number (Number.ofNat 16)] =
          .ok (.string (String.ofList digits)) ∧
        (digits ≠ [] ∧ (∀ c ∈ digits, isDigitOf 16 c = true) ∧
          ∀ ds, digits = '0' :: ds → ds = []) ∧
        parseInt.call [.string (String.ofList digits), .number (Number.ofNat 16)] =
          .ok (.number (Number.ofNat 255)) :=
  have hx : StandsFor (Number.ofNat 255) 255 := Number.standsFor_ofNat (by decide)
  ⟨hx, parseInt_toString hx (by decide) (by decide) (by decide)⟩

end Builtin

end HtmlTemplate

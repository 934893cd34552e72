import HtmlTemplate.Proofs.Number.Packing
import HtmlTemplate.Proofs.Number.Rounding

/-!
# Nearest doubles

A double that has a value exactly (`HasValue`) is the nearest to it (`HasValue.isNearest`), and the
nearest double is one only (`IsNearest.unique`). Sum, product and quotient of doubles that have
values are nearest to the sum, the product and the quotient of these, so the arithmetic of natural
numbers up to `2 ^ 53` is exact.

## Values without a sign

Rounding is the same for both signs, so values are taken without one: a double without a minus
stands for a rational number that is not negative. Signs are put back where numbers are read and
written.

## Why nearest is enough

A double is known once it is known what it is nearest to, since rounding gives one outcome
(`IsNearest.unique`). So two calculations are compared by the rational numbers that they round, and
a calculation with one rounding at its end is exact where that number is a double itself.
-/

namespace HtmlTemplate.Number

open Float.Model (UnpackedFloat)
open Float.Model.UnpackedFloat (Sign accuracyOfFraction decreaseExponent divCore roundWithAccuracy)

variable {x y : Float} {v w : Rat} {negative : Bool} {m n : Nat} {e : Int}

/-! ## What a double stands for -/

theorem signOf_isMinus (s : Sign) : signOf (isMinus s) = s := by cases s <;> rfl

theorem unpack_of_exact (h : exact x = .finite negative m e) :
    (x.toModel.unpack = .zero (signOf negative) ∧ m = 0 ∧ e = 0) ∨
      ∃ hc : IsCanonical m e, x.toModel.unpack = .finite (signOf negative) m e hc.pos := by
  rw [exact] at h
  split at h
  · cases h
  · cases h
  · rename_i s hu
    cases h
    rw [signOf_isMinus]
    exact .inl ⟨hu, rfl, rfl⟩
  · rename_i s m' e' hm hu
    cases h
    rw [signOf_isMinus]
    exact .inr ⟨isCanonical_of_unpack hu, hu⟩

theorem IsCanonical.rounded_eq (h : IsCanonical m e) (s : Sign) :
    rounded s m e = .finite s m e h.pos := by
  simp only [rounded, dif_neg h.pos.ne', if_pos h.lt]

theorem eq_of_exact (h : exact x = .finite negative m e) :
    x = .ofModel (.pack (rounded (signOf negative) m e)) := by
  have hu : x.toModel.unpack = rounded (signOf negative) m e := by
    obtain ⟨hu, rfl, rfl⟩ | ⟨hc, hu⟩ := unpack_of_exact h
    · exact hu
    · rw [hu, hc.rounded_eq]
  rw [← hu, pack_unpack]

theorem exact_pack (h : IsCanonical m e) (s : Sign) :
    exact (.ofModel (.pack (rounded s m e))) = .finite (isMinus s) m e := by
  rw [exact, h.rounded_eq, unpack_pack h s]

theorem exact_pack_zero (s : Sign) (t : Int) :
    exact (.ofModel (.pack (rounded s 0 t))) = .finite (isMinus s) 0 0 := by
  have hzero : rounded s 0 t = .zero s := dif_pos rfl
  rw [hzero]
  cases s <;> rfl

theorem exact_neg (h : exact x = .finite negative m e) : exact (-x) = .finite (!negative) m e := by
  show exact (.ofModel (.pack x.toModel.unpack.neg)) = _
  obtain ⟨hu, rfl, rfl⟩ | ⟨hc, hu⟩ := unpack_of_exact h
  · rw [hu]
    cases negative <;> rfl
  · have hneg : UnpackedFloat.neg (.finite (signOf negative) m e hc.pos) =
        rounded (-signOf negative) m e := (hc.rounded_eq _).symm
    rw [hu, hneg, exact_pack hc]
    cases negative <;> rfl

theorem neg_neg_of_exact (hx : exact x = .finite negative m e) : - -x = x := by
  have h := exact_neg (exact_neg hx)
  rw [Bool.not_not] at h
  rw [eq_of_exact h, ← eq_of_exact hx]

/-! ## Values -/

/-- The double has no minus and stands for the number. -/
def HasValue (x : Float) (v : Rat) : Prop := ∃ m e, exact x = .finite false m e ∧ m * 2 ^ e = v

/-- The number is not negative, and the double is what rounding takes it to. -/
def IsNearest (v : Rat) (x : Float) : Prop :=
  ∃ n t, Rounds v n t ∧ x = .ofModel (.pack (rounded .positive n t))

/-- **The nearest double is one only.** -/
theorem IsNearest.unique (hx : IsNearest v x) (hy : IsNearest v y) : x = y := by
  obtain ⟨n, t, hn, rfl⟩ := hx
  obtain ⟨n', t', hn', rfl⟩ := hy
  obtain ⟨rfl, rfl⟩ := hn.unique hn'
  rfl

theorem Rounds.zero : Rounds 0 0 (-1074) where
  grid := ⟨le_rfl, by positivity, .inl rfl⟩
  nearest := by
    rw [zero_div]
    exact .natCast 0

theorem IsNearest.zero : IsNearest 0 (.ofModel (.pack (.zero .positive))) := ⟨0, -1074, .zero, rfl⟩

theorem IsCanonical.rounds (h : IsCanonical m e) : Rounds (m * 2 ^ e) m e :=
  .of_scaled h.le (by exact_mod_cast h.lt)
    (h.normal.symm.imp_right fun hm ↦ by exact_mod_cast hm) (.natCast m)

theorem IsCanonical.unique {m' : Nat} {e' : Int} (h : IsCanonical m e) (h' : IsCanonical m' e')
    (heq : (m : Rat) * 2 ^ e = m' * 2 ^ e') : m = m' ∧ e = e' :=
  h.rounds.unique (heq ▸ h'.rounds)

theorem HasValue.zero_or_finite (h : HasValue x v) :
    (v = 0 ∧ x.toModel.unpack = .zero .positive) ∨
      ∃ m e, ∃ hc : IsCanonical m e, v = m * 2 ^ e ∧
        x.toModel.unpack = .finite .positive m e hc.pos := by
  obtain ⟨m, e, hx, rfl⟩ := h
  obtain ⟨hu, rfl, rfl⟩ | ⟨hc, hu⟩ := unpack_of_exact hx
  · exact .inl ⟨by rw [Nat.cast_zero, zero_mul], hu⟩
  · exact .inr ⟨m, e, hc, rfl, hu⟩

theorem IsCanonical.isNearest (h : IsCanonical m e) :
    IsNearest (m * 2 ^ e) (.ofModel (.pack (.finite .positive m e h.pos))) :=
  ⟨m, e, h.rounds, by rw [h.rounded_eq]⟩

theorem HasValue.isNearest (h : HasValue x v) : IsNearest v x := by
  have hx : x = .ofModel (.pack x.toModel.unpack) := by rw [pack_unpack]
  rw [hx]
  obtain ⟨rfl, hu⟩ | ⟨m, e, hc, rfl, hu⟩ := h.zero_or_finite
  · exact hu ▸ .zero
  · exact hu ▸ hc.isNearest

theorem HasValue.unique (hx : HasValue x v) (hy : HasValue y v) : x = y :=
  hx.isNearest.unique hy.isNearest

theorem IsCanonical.hasValue (h : IsCanonical m e) (hx : IsNearest (m * 2 ^ e) x) :
    HasValue x (m * 2 ^ e) := by
  obtain ⟨n, t, hn, rfl⟩ := hx
  obtain ⟨rfl, rfl⟩ := hn.unique h.rounds
  exact ⟨n, t, exact_pack h .positive, rfl⟩

theorem IsNearest.hasValue_zero (h : IsNearest 0 x) : HasValue x 0 := by
  obtain ⟨n, t, hn, rfl⟩ := h
  obtain ⟨rfl, rfl⟩ := hn.unique .zero
  exact ⟨0, 0, exact_pack_zero .positive _, by rw [Nat.cast_zero, zero_mul]⟩

theorem isNearest_round (hm : m ≠ 0) (e : Int) :
    IsNearest (m * 2 ^ e) (.ofModel (.pack (UnpackedFloat.round .binary64 .positive m e))) := by
  obtain ⟨n, t, hn, heq⟩ := exists_rounds_round .positive hm e
  exact ⟨n, t, hn, by rw [heq]⟩

theorem isNearest_nearest (m : Nat) (e : Int) : IsNearest (m * 2 ^ e) (nearest false m e) := by
  rw [nearest]
  split
  next hm =>
    rw [hm, Nat.cast_zero, zero_mul]
    exact .zero
  next hm => exact isNearest_round hm e

/-! ## Arithmetic -/

theorem isNearest_roundWithAccuracy {a : UnpackedFloat.Accuracy}
    (h : Represents (.ofMantissaAndAccuracy m a) (v / 2 ^ e))
    (he : e ≤ max ((m.log2 : Int) + e - 52) (-1074)) :
    IsNearest v (.ofModel (.pack (roundWithAccuracy .binary64 .positive m e a))) := by
  obtain ⟨n, t, hn, heq⟩ := exists_rounds_of_represents .positive h he
  exact ⟨n, t, hn, by rw [heq]⟩

theorem isNearest_roundWithAccuracy_exact (he : e ≤ max ((m.log2 : Int) + e - 52) (-1074)) :
    IsNearest (m * 2 ^ e)
      (.ofModel (.pack (roundWithAccuracy .binary64 .positive m e .exact))) := by
  refine isNearest_roundWithAccuracy ?_ he
  rw [mul_div_cancel_right₀ _ (zpow_pos two_pos e).ne']
  exact .ofExact m

theorem IsCanonical.le_log2 (h : IsCanonical m e) : 52 ≤ m.log2 ∨ e = -1074 :=
  h.normal.imp_left (Nat.le_log2 h.pos.ne').mpr

theorem HasValue.mul (hx : HasValue x v) (hy : HasValue y w) : IsNearest (v * w) (x * y) := by
  show IsNearest _
    (.ofModel (.pack (UnpackedFloat.mul .binary64 x.toModel.unpack y.toModel.unpack)))
  obtain ⟨rfl, hu⟩ | ⟨m, e, hc, rfl, hu⟩ := hx.zero_or_finite <;>
    obtain ⟨rfl, hu'⟩ | ⟨m', e', hc', rfl, hu'⟩ := hy.zero_or_finite <;> rw [hu, hu']
  · rw [zero_mul]
    exact .zero
  · rw [zero_mul]
    exact .zero
  · rw [mul_zero]
    exact .zero
  · have hlog : m.log2 + m'.log2 ≤ (m * m').log2 := by
      rw [Nat.le_log2 (Nat.mul_ne_zero hc.pos.ne' hc'.pos.ne'), Nat.pow_add]
      exact Nat.mul_le_mul (Nat.log2_self_le hc.pos.ne') (Nat.log2_self_le hc'.pos.ne')
    have hvalue : (m : Rat) * 2 ^ e * (m' * 2 ^ e') = (m * m' : Nat) * 2 ^ (e + e') := by
      rw [zpow_add₀ two_ne_zero]
      push_cast
      ring
    rw [hvalue]
    refine isNearest_roundWithAccuracy_exact ?_
    have := hc.le_log2
    have := hc'.le_log2
    omega

theorem isNearest_divCore {m' : Nat} (hm : m ≠ 0) (hm' : m' ≠ 0) (e e' : Int) :
    IsNearest (m * 2 ^ e / (m' * 2 ^ e')) (.ofModel (.pack (roundWithAccuracy .binary64 .positive
      (divCore .binary64 m e m' e').1 (divCore .binary64 m e m' e').2.1
      (divCore .binary64 m e m' e').2.2))) := by
  set t := min (e - e') (max (m.log2 + 1 + e - (m'.log2 + 1 + e') - 53) (-1074)) with ht
  set k := (e - e' - t).toNat with hk
  have hcore : divCore .binary64 m e m' e' =
      ((m <<< k) / m', t, accuracyOfFraction ((m <<< k) % m') m') := by
    rw [divCore, targetExponent_int]
    rfl
  have hvalue : (m : Rat) * 2 ^ e / (m' * 2 ^ e') / 2 ^ t = (m <<< k : Nat) / m' := by
    have hk : (k : Int) = e - e' - t := by omega
    rw [Nat.shiftLeft_eq]
    push_cast
    rw [← zpow_natCast, hk, zpow_sub₀ two_ne_zero, zpow_sub₀ two_ne_zero]
    field_simp
  rw [hcore]
  refine isNearest_roundWithAccuracy (hvalue ▸ .ofQuotient _ (Nat.pos_of_ne_zero hm')) ?_
  show t ≤ max ((((m <<< k) / m').log2 : Int) + t - 52) (-1074)
  -- above the least exponent the quotient has 53 digits at least
  rcases le_or_gt t (-1074) with hle | hlt
  · exact le_max_of_le_right hle
  · have hlog : 2 ^ 52 ≤ (m <<< k) / m' := by
      rw [Nat.le_div_iff_mul_le (Nat.pos_of_ne_zero hm'), Nat.shiftLeft_eq]
      calc 2 ^ 52 * m'
        _ ≤ 2 ^ 52 * 2 ^ (m'.log2 + 1) := Nat.mul_le_mul_left _ Nat.lt_log2_self.le
        _ = 2 ^ (52 + (m'.log2 + 1)) := (Nat.pow_add _ _ _).symm
        _ ≤ 2 ^ (m.log2 + k) := Nat.pow_le_pow_right (by decide) (by omega)
        _ = 2 ^ m.log2 * 2 ^ k := Nat.pow_add _ _ _
        _ ≤ m * 2 ^ k := Nat.mul_le_mul_right _ (Nat.log2_self_le hm)
    have hne : (m <<< k) / m' ≠ 0 := (Nat.two_pow_pos 52).trans_le hlog |>.ne'
    have := (Nat.le_log2 hne).mpr hlog
    omega

theorem HasValue.div (hx : HasValue x v) (hy : HasValue y w) (hw : w ≠ 0) :
    IsNearest (v / w) (x / y) := by
  show IsNearest _
    (.ofModel (.pack (UnpackedFloat.div .binary64 x.toModel.unpack y.toModel.unpack)))
  obtain ⟨rfl, -⟩ | ⟨m', e', hc', rfl, hu'⟩ := hy.zero_or_finite
  · exact absurd rfl hw
  obtain ⟨rfl, hu⟩ | ⟨m, e, hc, rfl, hu⟩ := hx.zero_or_finite <;> rw [hu, hu']
  · rw [zero_div]
    exact .zero
  · exact isNearest_divCore hc.pos.ne' hc'.pos.ne' e e'

private theorem isNearest_add {m' : Nat} (hm : 0 < m) (hm' : 0 < m') (e e' : Int) :
    IsNearest (m * 2 ^ e + m' * 2 ^ e') (.ofModel (.pack
      (UnpackedFloat.add .binary64 (.finite .positive m e hm) (.finite .positive m' e' hm')))) := by
  set t := min e e' with ht
  set k := m <<< (e - t).toNat + m' <<< (e' - t).toNat with hk
  have hpos : 0 < k := by
    rw [hk, Nat.shiftLeft_eq]
    exact Nat.add_pos_left (Nat.mul_pos hm (Nat.two_pow_pos _)) _
  have hvalue : (m : Rat) * 2 ^ e + m' * 2 ^ e' = k * 2 ^ t := by
    have hshift (j : Nat) {i : Int} (hi : t ≤ i) :
        ((j <<< (i - t).toNat : Nat) : Rat) * 2 ^ t = j * 2 ^ i := by
      rw [Nat.shiftLeft_eq, Nat.cast_mul, Nat.cast_pow, Nat.cast_two, ← zpow_natCast,
        Int.toNat_of_nonneg (by omega), mul_assoc, ← zpow_add₀ two_ne_zero, sub_add_cancel]
    rw [hk, Nat.cast_add, add_mul, hshift m (by omega), hshift m' (by omega)]
  have hadd : UnpackedFloat.add .binary64 (.finite .positive m e hm) (.finite .positive m' e' hm') =
      UnpackedFloat.round .binary64 .positive k t := by
    show UnpackedFloat.normalize .binary64
      ((m <<< (e - t).toNat : Nat) + (m' <<< (e' - t).toNat : Nat)) t .positive = _
    rw [← Nat.cast_add, ← hk, UnpackedFloat.normalize, Int.compare_eq_gt.mpr (by omega),
      Int.toNat_natCast]
  rw [hadd, hvalue]
  exact isNearest_round hpos.ne' t

theorem HasValue.add (hx : HasValue x v) (hy : HasValue y w) : IsNearest (v + w) (x + y) := by
  show IsNearest _
    (.ofModel (.pack (UnpackedFloat.add .binary64 x.toModel.unpack y.toModel.unpack)))
  obtain ⟨rfl, hu⟩ | ⟨m, e, hc, rfl, hu⟩ := hx.zero_or_finite <;>
    obtain ⟨rfl, hu'⟩ | ⟨m', e', hc', rfl, hu'⟩ := hy.zero_or_finite <;> rw [hu, hu']
  · rw [add_zero]
    exact .zero
  · rw [zero_add]
    exact hc'.isNearest
  · rw [add_zero]
    exact hc.isNearest
  · exact isNearest_add hc.pos hc'.pos e e'

/-! ## Natural numbers

A mantissa has 53 binary digits, so a natural number up to `2 ^ 53` is a double, and so is every
result of arithmetic that stays in this range. -/

theorem isCanonical_shiftLeft (hn : 0 < n) (hlt : n < 2 ^ 53) {j : Nat} (hj : j ≤ 900) :
    IsCanonical (n <<< (52 - n.log2)) (n.log2 - 52 + j) := by
  have hlog : n.log2 < 53 := (Nat.log2_lt hn.ne').mpr hlt
  have hne : n <<< (52 - n.log2) ≠ 0 := by
    rw [Nat.shiftLeft_eq]
    exact Nat.mul_ne_zero hn.ne' (Nat.two_pow_pos _).ne'
  have hlog' : (n <<< (52 - n.log2)).log2 = 52 := by
    rw [log2_shiftLeft hn.ne']
    omega
  exact ⟨Nat.pos_of_ne_zero hne, (Nat.log2_lt hne).mp (by omega), by omega, by omega,
    .inl ((Nat.le_log2 hne).mp hlog'.ge)⟩

theorem shiftLeft_mul_two_zpow (hn : 0 < n) (hlt : n < 2 ^ 53) (j : Nat) :
    ((n <<< (52 - n.log2) : Nat) : Rat) * 2 ^ ((n.log2 : Int) - 52 + j) = n * 2 ^ j := by
  have hlog : n.log2 < 53 := (Nat.log2_lt hn.ne').mpr hlt
  have hexp : ((52 - n.log2 : Nat) : Int) + (n.log2 - 52 + j) = j := by omega
  rw [Nat.shiftLeft_eq, Nat.cast_mul, Nat.cast_pow, Nat.cast_two, ← zpow_natCast, mul_assoc,
    ← zpow_add₀ two_ne_zero, hexp, zpow_natCast]

theorem IsNearest.hasValue_mul_two_pow (hlt : n < 2 ^ 53) {j : Nat} (hj : j ≤ 900)
    (h : IsNearest (n * 2 ^ j) x) : HasValue x (n * 2 ^ j) := by
  rcases Nat.eq_zero_or_pos n with rfl | hn
  · rw [Nat.cast_zero, zero_mul] at h ⊢
    exact h.hasValue_zero
  · rw [← shiftLeft_mul_two_zpow hn hlt] at h ⊢
    exact (isCanonical_shiftLeft hn hlt hj).hasValue h

/-- A double that is nearest to a natural number up to `2 ^ 53` is that number. -/
theorem IsNearest.hasValue_natCast (hn : n ≤ 2 ^ 53) (h : IsNearest n x) : HasValue x n := by
  obtain ⟨k, j, hk, hj, rfl⟩ : ∃ k j, k < 2 ^ 53 ∧ j ≤ 900 ∧ n = k * 2 ^ j := by
    rcases hn.lt_or_eq with hlt | rfl
    · exact ⟨n, 0, hlt, by decide, (Nat.mul_one n).symm⟩
    · exact ⟨2 ^ 52, 1, by decide, by decide, rfl⟩
  rw [Nat.cast_mul, Nat.cast_pow, Nat.cast_two] at h ⊢
  exact h.hasValue_mul_two_pow hk hj

theorem isNearest_ofNat (n : Nat) : IsNearest n (ofNat n) := by
  have h := isNearest_nearest n 0
  rwa [zpow_zero, mul_one] at h

theorem hasValue_ofNat (hn : n ≤ 2 ^ 53) : HasValue (ofNat n) n :=
  (isNearest_ofNat n).hasValue_natCast hn

theorem HasValue.mul_natCast (hx : HasValue x m) (hy : HasValue y n) (h : m * n ≤ 2 ^ 53) :
    HasValue (x * y) (m * n : Nat) :=
  IsNearest.hasValue_natCast h (by rw [Nat.cast_mul]; exact hx.mul hy)

theorem HasValue.add_natCast (hx : HasValue x m) (hy : HasValue y n) (h : m + n ≤ 2 ^ 53) :
    HasValue (x + y) (m + n : Nat) :=
  IsNearest.hasValue_natCast h (by rw [Nat.cast_add]; exact hx.add hy)

end HtmlTemplate.Number

import HtmlTemplate.Proofs.Number.Comparison
import HtmlTemplate.Proofs.Number.Integers
import HtmlTemplate.Proofs.Number.Representable
import HtmlTemplate.Proofs.Number.WholePart
import HtmlTemplate.Value.Call

/-!
# Numbers with a count of fraction digits

A number is written with `d` fraction digits as the nearest multiple of `10 ^ -d`, a tie away from
zero (`IsNearestAway`, `IsFixed`). The exact value is rounded with ties to even, and ties are looked
for before that, in the product with a power of ten as it is computed in floating point. So the text
is the right one if the product is a half exactly when it should be (`toFixed_eq`), which it is if
the exact product is a double (`seesHalf_of_isDouble`).

If both products are a half, then there are 22 fraction digits at most, for an exact half of more
digits is too large to be seen (`le_of_halfWay`): the power of ten is exact, and the number that is
moved up to the next grid point is so close to it that it is rounded there
(`exists_exact_moveHalfUp`).

## The moved number

A tie is made to go away from zero by rounding a number that is a little further from zero. For this
to have no other effect, the moved number has to be rounded like the number itself unless that is a
tie, and up if it is. Both follow from where the moved number lies between two multiples, which is
known exactly as long as the power of ten is a double.

## What floating point does not see

The product with the power of ten is rounded, so it can be a half where the exact product is none,
and none where the exact product is a half. In either case the text can be that of the neighbour
(`not_toFixed_eq`).
-/

namespace HtmlTemplate

namespace Number

open Float.Model.UnpackedFloat (ExtendedMantissa accuracyOfFraction)

variable {x size : Float} {v w q : Rat} {m n k j d : Nat} {e : Int} {negative : Bool}
  {t : List Char}

/-! ## Rounding

Rounding a quotient of natural numbers is to the nearest, and ties go to even; which is the same as
away from zero where there is no tie. -/

/-- The natural number is nearest to `q`, and of two that are as near the one farther from zero. -/
structure IsNearestAway (q : Rat) (n : Nat) : Prop where
  lower : n - 1 / 2 ≤ q
  upper : q < n + 1 / 2

/-- Is the number half-way between two natural numbers? -/
def IsHalfWay (q : Rat) : Prop := ∃ k : Nat, q = k + 1 / 2

theorem IsNearestNat.isNearestAway (h : IsNearestNat q n) (hq : ¬IsHalfWay q) :
    IsNearestAway q n :=
  ⟨h.lower, lt_of_le_of_ne h.upper fun heq ↦ hq ⟨n, heq⟩⟩

theorem isNearestAway_half (k : Nat) : IsNearestAway (k + 1 / 2) (k + 1) := by
  constructor <;> push_cast <;> linarith

theorem ne_natCast_of_half (k n : Nat) : (k : Rat) + 1 / 2 ≠ n := by
  intro h
  have h : 2 * k + 1 = 2 * n := by
    have : (2 * k + 1 : Rat) = 2 * n := by linarith
    exact_mod_cast this
  omega

private theorem roundedMantissa_eq_divNearestEven (n d : Nat) :
    (ExtendedMantissa.ofMantissaAndAccuracy (n / d)
      (accuracyOfFraction (n % d) d)).roundedMantissa = divNearestEven n d := by
  rw [accuracyOfFraction, divNearestEven]
  split
  next h0 =>
    rcases Nat.eq_zero_or_pos d with rfl | hd
    · rw [h0, Nat.div_zero]
      rfl
    · rw [h0, if_pos (by omega)]
      rfl
  next h0 =>
    rcases h : compare (2 * (n % d)) d with _ | _ | _
    · rw [if_pos (Nat.compare_eq_lt.mp h)]
      rfl
    · have := Nat.compare_eq_eq.mp h
      rw [if_neg (by omega), if_neg (by omega)]
      rfl
    · have := Nat.compare_eq_gt.mp h
      rw [if_neg (by omega), if_pos (by omega)]
      rfl

private theorem isNearestNat_divNearestEven (n : Nat) (hd : 0 < d) :
    IsNearestNat (n / d) (divNearestEven n d) := by
  rw [← roundedMantissa_eq_divNearestEven]
  exact (Represents.ofQuotient n hd).isNearestNat_roundedMantissa

theorem isNearestNat_scaledNearest (m : Nat) (e : Int) (d : Nat) :
    IsNearestNat (m * 2 ^ e * 10 ^ d) (scaledNearest m e d) := by
  have hpos : 0 < twoPow (-e).toNat := Nat.pow_pos (by decide)
  have hvalue : (m : Rat) * 2 ^ e * 10 ^ d =
      (m * twoPow e.toNat * tenPow d : Nat) / (twoPow (-e).toNat : Nat) := by
    have htwo := zpow_mul_pow_toNat (b := 2) two_ne_zero e
    have hcast (n : Nat) : (twoPow n : Rat) = 2 ^ n := by exact_mod_cast rfl
    have hcast' (n : Nat) : (tenPow n : Rat) = 10 ^ n := by exact_mod_cast rfl
    rw [eq_div_iff (Nat.cast_ne_zero.mpr hpos.ne'), Nat.cast_mul, Nat.cast_mul, hcast, hcast,
      hcast', ← htwo]
    ring
  rw [hvalue]
  exact isNearestNat_divNearestEven _ hpos

/-! ## The layout

The digits of the rounded product are written with a point in front of the last of them. Zeros are
put in front where there are too few digits for that. -/

/-- The text of `n / 10 ^ d` with `d` digits behind the point, and no point if there are none. -/
inductive IsFixed : Nat → List Char → Nat → Prop
  | whole (n : Nat) : IsFixed 0 (decimalDigits n) n
  | point {fs : List Char} (n : Nat) (ne : fs ≠ []) (digits : ∀ c ∈ fs, c.isDigit = true) :
    IsFixed fs.length (decimalDigits n ++ '.' :: fs) (n * 10 ^ fs.length + ofDigits 10 fs)

theorem IsFixed.ofDigits_filter (h : IsFixed d t n) : ofDigits 10 (t.filter Char.isDigit) = n := by
  have hdecimal (n : Nat) : (decimalDigits n).filter Char.isDigit = decimalDigits n :=
    List.filter_eq_self.mpr fun c ↦ isDigit_of_mem_decimalDigits
  cases h with
  | whole n => rw [hdecimal, ofDigits_decimalDigits]
  | point n ne digits =>
    rw [List.filter_append, hdecimal, List.filter_cons_of_neg (by decide),
      List.filter_eq_self.mpr digits, ofDigits_append, ofDigits_decimalDigits]

theorem isFixed_point {ds fs : List Char} (ne : ds ≠ []) (ne' : fs ≠ [])
    (digits : ∀ c ∈ ds ++ fs, c.isDigit = true) (hzero : ∀ es, ds = '0' :: es → es = []) :
    IsFixed fs.length (ds ++ '.' :: fs) (ofDigits 10 (ds ++ fs)) := by
  have hds := eq_decimalDigits ne (fun c hc ↦ digits c (List.mem_append_left fs hc)) hzero
  have hfixed := IsFixed.point (ofDigits 10 ds) ne' fun c hc ↦
    digits c (List.mem_append_right ds hc)
  rwa [← hds, ← ofDigits_append] at hfixed

def padded (n d : Nat) : List Char := zeros (d + 1 - (decimalDigits n).length) ++ decimalDigits n

theorem withPoint_eq (n d : Nat) : withPoint n d =
    if d = 0 then padded n d
    else (padded n d).take ((padded n d).length - d) ++
      '.' :: (padded n d).drop ((padded n d).length - d) := rfl

theorem isDigit_of_mem_padded {c : Char} (h : c ∈ padded n d) : c.isDigit = true := by
  rcases List.mem_append.mp h with h | h
  · rw [(List.mem_replicate.mp h).2]
    rfl
  · exact isDigit_of_mem_decimalDigits h

private theorem ofDigits_padded (n d : Nat) : ofDigits 10 (padded n d) = n :=
  (ofDigits_zeros_append 10 _ _).trans (ofDigits_decimalDigits n)

theorem length_padded (n d : Nat) : (padded n d).length = max (d + 1) (decimalDigits n).length := by
  rw [padded, List.length_append, zeros, List.length_replicate]
  omega

theorem eq_nil_of_padded {es fs : List Char} (h : padded n d = '0' :: (es ++ fs))
    (hfs : fs.length = d) : es = [] := by
  rcases Nat.lt_or_ge d (decimalDigits n).length with hlt | hge
  · obtain ⟨c, cs, hcs, hc⟩ := exists_decimalDigits_eq_cons n
    rw [padded, Nat.sub_eq_zero_of_le hlt, zeros, List.replicate_zero, List.nil_append, hcs] at h
    obtain ⟨rfl, hes⟩ := List.cons.inj h
    rw [(hc rfl).2] at hes
    exact (List.append_eq_nil_iff.mp hes.symm).1
  · have hlength := congrArg List.length h
    rw [length_padded, List.length_cons, List.length_append] at hlength
    exact List.eq_nil_of_length_eq_zero (by omega)

theorem isFixed_withPoint (n d : Nat) : IsFixed d (withPoint n d) n := by
  have hlen := length_padded n d
  rw [withPoint_eq]
  split
  next h0 =>
    subst h0
    have hone := List.length_pos_iff.mpr (decimalDigits_ne_nil n)
    rw [padded, Nat.sub_eq_zero_of_le (by omega), zeros, List.replicate_zero, List.nil_append]
    exact .whole n
  next h0 =>
    obtain ⟨ds, fs, hds, hfs, happend⟩ : ∃ ds fs, (padded n d).take ((padded n d).length - d) = ds ∧
        (padded n d).drop ((padded n d).length - d) = fs ∧ ds ++ fs = padded n d :=
      ⟨_, _, rfl, rfl, List.take_append_drop _ _⟩
    have hfslen : fs.length = d := by
      rw [← hfs, List.length_drop]
      omega
    have hdslen : ds.length = (padded n d).length - d := by
      rw [← hds, List.length_take]
      omega
    have hfixed : IsFixed fs.length (ds ++ '.' :: fs) (ofDigits 10 (ds ++ fs)) :=
      isFixed_point (List.ne_nil_of_length_pos (by omega)) (List.ne_nil_of_length_pos (by omega))
        (fun c hc ↦ isDigit_of_mem_padded (happend ▸ hc))
        fun es hes ↦ eq_nil_of_padded (happend.symm.trans (congrArg (· ++ fs) hes)) hfslen
    rw [hds, hfs]
    rwa [happend, ofDigits_padded, hfslen] at hfixed

/-! ## Powers of ten -/

private theorem powerOfTen_eq : ∀ d : Fin 23,
    powerOfTen d = Float.exactlyRepresentablePowersOfTen[d] := by
  decide +kernel

theorem hasValue_powerOfTen (hd : d ≤ 22) : HasValue (powerOfTen d) (10 ^ d) := by
  have hpower := hasValue_powersOfTen ⟨d, Nat.lt_succ_of_le hd⟩
  rwa [← powerOfTen_eq] at hpower

theorem powerOfTen_large : ∀ d : Fin 78, (match exact (powerOfTen (d + 23)) with
    | .finite false m (.ofNat e) => decide (4 * 10 ^ (d + 23 : Nat) ≤ 5 * (m * 2 ^ e))
    | _ => false) = true := by
  decide +kernel

theorem exists_hasValue_powerOfTen (hd : d ≤ 100) :
    ∃ w, HasValue (powerOfTen d) w ∧ 4 * 10 ^ d ≤ 5 * w := by
  rcases Nat.lt_or_ge 22 d with hlt | hle
  · have hlarge := powerOfTen_large ⟨d - 23, by omega⟩
    have hsub : d - 23 + 23 = d := by omega
    simp only [hsub] at hlarge
    split at hlarge
    · rename_i m e hx
      refine ⟨m * 2 ^ (e : Int), ⟨m, e, hx, rfl⟩, ?_⟩
      rw [zpow_natCast]
      exact_mod_cast of_decide_eq_true hlarge
    · exact absurd hlarge Bool.false_ne_true
  · refine ⟨_, hasValue_powerOfTen hle, ?_⟩
    have : (0 : Rat) < 10 ^ d := by positivity
    linarith

/-! ## Halves in floating point -/

theorem mod_eq_twoPow_iff (m e : Nat) :
    m % twoPow (e + 1) = twoPow e ↔ (m : Rat) * 2 ^ Int.negSucc e =
      (m / twoPow (e + 1) : Nat) + 1 / 2 := by
  have hpos : (0 : Rat) < 2 ^ (e + 1) := by positivity
  have hdiv :
      ((m / twoPow (e + 1) : Nat) : Rat) * 2 ^ (e + 1) + (m % twoPow (e + 1) : Nat) = m := by
    exact_mod_cast Nat.div_add_mod' m (2 ^ (e + 1))
  have hhalf : (twoPow e : Rat) = 1 / 2 * 2 ^ (e + 1) := by
    rw [pow_succ]
    have : (twoPow e : Rat) = 2 ^ e := by exact_mod_cast rfl
    rw [this]
    ring
  rw [zpow_negSucc, ← div_eq_mul_inv, div_eq_iff hpos.ne', ← hdiv, add_mul, ← hhalf,
    add_right_inj, Nat.cast_inj]

theorem moveHalfUp_of_half (h : HasValue (size * powerOfTen d) (k + 1 / 2)) :
    moveHalfUp size d = (ofNat k + 1) / powerOfTen d := by
  -- no double from `2 ^ 53` on is half-way between two integers
  have hsmall : size * powerOfTen d < 9007199254740992 := by
    have hbound : HasValue 9007199254740992 (2 ^ 53) :=
      ⟨2 ^ 52, 1, rfl, by norm_num⟩
    rw [h.lt_iff hbound]
    have := h.isNearest.lt_two_pow h (ne_natCast_of_half k)
    linarith
  obtain ⟨m, e, hx, hv⟩ := h
  rw [moveHalfUp, hx]
  rcases e with e | e
  · refine absurd hv.symm ?_
    rw [Int.ofNat_eq_natCast, zpow_natCast]
    exact_mod_cast ne_natCast_of_half k (m * 2 ^ e)
  · have hk : m / twoPow (e + 1) = k := by
      have hfloor : (integerPart m (.negSucc e) : Int) = k := by
        rw [integerPart_eq_floor, hv, Int.floor_eq_iff]
        constructor <;> push_cast <;> linarith
      exact_mod_cast hfloor
    have hhalf := (mod_eq_twoPow_iff m e).mpr (by rw [hk, hv])
    dsimp only
    rw [if_pos ⟨hhalf, hsmall⟩, hk]

theorem moveHalfUp_of_not_half (hnearest : IsNearest v (size * powerOfTen d))
    (h : ∀ q, HasValue (size * powerOfTen d) q → ¬IsHalfWay q) : moveHalfUp size d = size := by
  rw [moveHalfUp]
  split
  next negative m e hx =>
    refine if_neg fun hhalf ↦ ?_
    rcases hnearest.hasValue_or_eq_infinity with ⟨q, m', e', hx', hq⟩ | hinfinite
    · cases hx.symm.trans hx'
      exact h q ⟨m, _, hx, hq⟩ ⟨_, hq.symm.trans ((mod_eq_twoPow_iff m e).mp hhalf.1)⟩
    · rw [hinfinite, exact_infinity] at hx
      cases hx
  next => rfl

theorem five_pow_dvd_of_half (h : (m : Rat) * 2 ^ e * 10 ^ d = j + 1 / 2) : 5 ^ d ∣ 2 * j + 1 := by
  have hscale := zpow_mul_pow_toNat (b := 2) two_ne_zero (e + 1 + d)
  have hodd : (m : Rat) * 5 ^ d * 2 ^ (e + 1 + d) = 2 * j + 1 := by
    rw [zpow_add₀ two_ne_zero, zpow_add_one₀ two_ne_zero, zpow_natCast]
    calc (m : Rat) * 5 ^ d * (2 ^ e * 2 * 2 ^ d)
      _ = 2 * (m * 2 ^ e * (2 * 5) ^ d) := by
        rw [mul_pow]
        ring
      _ = 2 * j + 1 := by
        norm_num [h]
        ring
  have hnat : m * 5 ^ d * 2 ^ (e + 1 + d).toNat = (2 * j + 1) * 2 ^ (-(e + 1 + d)).toNat := by
    have : (m : Rat) * 5 ^ d * 2 ^ (e + 1 + d).toNat = (2 * j + 1) * 2 ^ (-(e + 1 + d)).toNat := by
      rw [← hscale, ← mul_assoc, hodd]
    exact_mod_cast this
  -- a power of five shares no factor with a power of two
  have hcoprime : Nat.Coprime (5 ^ d) (2 ^ (-(e + 1 + d)).toNat) :=
    Nat.Coprime.pow _ _ (by decide)
  refine hcoprime.dvd_of_dvd_mul_right ?_
  rw [← hnat]
  exact Dvd.dvd.mul_right (Nat.dvd_mul_left _ _) _

/-- A half with more than 22 fraction digits is too large to be seen in floating point. -/
theorem le_of_halfWay (hsize : HasValue size v) (hd : d ≤ 100)
    (hk : HasValue (size * powerOfTen d) (k + 1 / 2)) (hj : v * 10 ^ d = j + 1 / 2) : d ≤ 22 := by
  by_contra! hlt
  obtain ⟨w, hw, hle⟩ := exists_hasValue_powerOfTen hd
  have hproduct := (hsize.mul hw).lt_two_pow hk (ne_natCast_of_half k)
  have hlarge : 5 ^ 23 ≤ 2 * j + 1 := by
    obtain ⟨m, e, -, rfl⟩ := hsize
    exact (Nat.pow_le_pow_right (by decide) hlt).trans
      (Nat.le_of_dvd (Nat.succ_pos _) (five_pow_dvd_of_half hj))
  have hlarge : (5 : Rat) ^ 23 ≤ 2 * j + 1 := by exact_mod_cast hlarge
  have := mul_le_mul_of_nonneg_left hle hsize.nonneg
  norm_num at hlarge hproduct
  linarith

private theorem eq_of_halfWay (hsize : HasValue size v) (hd : d ≤ 22)
    (hk : HasValue (size * powerOfTen d) (k + 1 / 2)) (hj : v * 10 ^ d = j + 1 / 2) : k = j := by
  have hnearest := hsize.mul (hasValue_powerOfTen hd)
  have hlt := hnearest.lt_two_pow hk (ne_natCast_of_half k)
  rw [hj] at hnearest hlt
  have hdouble : IsDouble (j + 1 / 2) := by
    have hj : (2 * j + 1 : Nat) < 2 ^ 53 := by
      have : ((2 * j + 1 : Nat) : Rat) < (2 ^ 53 : Nat) := by
        push_cast
        linarith
      exact_mod_cast this
    have := isDouble_mul_two_zpow (e := -1) hj (by decide) (by decide)
    have hvalue : ((2 * j + 1 : Nat) : Rat) * 2 ^ (-1 : Int) = j + 1 / 2 := by
      push_cast
      rw [zpow_neg_one]
      ring
    rwa [hvalue] at this
  have hvalue := hk.value_unique (hnearest.hasValue hdouble)
  have : (k : Rat) = j := by linarith
  exact_mod_cast this

theorem exists_exact_div_powerOfTen (hd : d ≤ 22) (hx : HasValue x (n + 1 : Nat))
    (hn : n < 2 ^ 52) :
    ∃ m e, exact (x / powerOfTen d) = .finite false m e ∧ scaledNearest m e d = n + 1 := by
  have hpow : (0 : Rat) < 10 ^ d := by positivity
  have hn' : ((n + 1 : Nat) : Rat) ≤ 2 ^ 52 := by exact_mod_cast hn
  have hpos : (1 : Rat) ≤ (n + 1 : Nat) := by exact_mod_cast Nat.succ_pos n
  have hle : (10 : Rat) ^ d ≤ 10 ^ 22 := pow_le_pow_right₀ (by norm_num) hd
  obtain ⟨_, ⟨m, e, hexact, rfl⟩, hclose⟩ :=
    (hx.div (hasValue_powerOfTen hd) hpow.ne').exists_close
      (calc (2 : Rat) ^ (-1022 : Int)
        _ ≤ 2 ^ (-80 : Int) := two_zpow_le (by decide)
        _ ≤ 1 / 10 ^ 22 := by norm_num
        _ ≤ 1 / 10 ^ d := one_div_le_one_div_of_le hpow hle
        _ ≤ (n + 1 : Nat) / 10 ^ d := div_le_div_of_nonneg_right hpos hpow.le)
      (calc ((n + 1 : Nat) : Rat) / 10 ^ d
        _ ≤ (n + 1 : Nat) := div_le_self (by linarith) (one_le_pow₀ (by norm_num))
        _ ≤ 2 ^ (52 : Int) := by exact_mod_cast hn
        _ < 2 ^ (1023 : Int) := zpow_lt_zpow_right₀ one_lt_two (by decide))
  refine ⟨m, e, hexact, (isNearestNat_scaledNearest m e d).unique ?_⟩
  have hscaled : |(m : Rat) * 2 ^ e * 10 ^ d - (n + 1 : Nat)| ≤ (n + 1 : Nat) / 2 ^ 53 :=
    calc |(m : Rat) * 2 ^ e * 10 ^ d - (n + 1 : Nat)|
      _ = |(m : Rat) * 2 ^ e - (n + 1 : Nat) / 10 ^ d| * 10 ^ d := by
        rw [← abs_of_pos hpow, ← abs_mul, abs_of_pos hpow, sub_mul, div_mul_cancel₀ _ hpow.ne']
      _ ≤ (n + 1 : Nat) / 10 ^ d / 2 ^ 53 * 10 ^ d := mul_le_mul_of_nonneg_right hclose hpow.le
      _ = (n + 1 : Nat) / 2 ^ 53 := by field_simp
  obtain ⟨hlower, hupper⟩ := abs_le.mp hscaled
  refine ⟨by linarith, by linarith, fun htie ↦ ?_⟩
  -- only the largest of these numbers can be off by a half, and it is even
  have hmax : (2 : Rat) ^ 52 ≤ (n + 1 : Nat) := by
    rcases htie with htie | htie <;> linarith
  have hmax : 2 ^ 52 ≤ n + 1 := by exact_mod_cast hmax
  omega

/-- **The double that is rounded has the right count of grid points**, if a half is seen as one. -/
theorem exists_exact_moveHalfUp (hsize : HasValue size v) (hd : d ≤ 100)
    (hhalf : (∃ q, HasValue (size * powerOfTen d) q ∧ IsHalfWay q) ↔ IsHalfWay (v * 10 ^ d)) :
    ∃ m e, exact (moveHalfUp size d) = .finite false m e ∧
      IsNearestAway (v * 10 ^ d) (scaledNearest m e d) := by
  by_cases hv : IsHalfWay (v * 10 ^ d)
  · obtain ⟨_, hk, k, rfl⟩ := hhalf.mpr hv
    obtain ⟨j, hj⟩ := hv
    have hd := le_of_halfWay hsize hd hk hj
    obtain rfl := eq_of_halfWay hsize hd hk hj
    have hlt : k < 2 ^ 52 := by
      have hlt := hk.isNearest.lt_two_pow hk (ne_natCast_of_half k)
      have : (k : Rat) < (2 ^ 52 : Nat) := by
        push_cast
        linarith
      exact_mod_cast this
    have hone : HasValue 1 (1 : Nat) := ⟨2 ^ 52, -52, rfl, by norm_num⟩
    have hsucc := (hasValue_ofNat (by omega : k ≤ 2 ^ 53)).add_natCast hone (by omega)
    obtain ⟨m, e, hexact, hn⟩ := exists_exact_div_powerOfTen hd hsucc hlt
    rw [moveHalfUp_of_half hk, hj]
    exact ⟨m, e, hexact, hn ▸ isNearestAway_half k⟩
  · obtain ⟨w, hw, -⟩ := exists_hasValue_powerOfTen hd
    rw [moveHalfUp_of_not_half (hsize.mul hw) fun q hq hhalfway ↦ hv (hhalf.mp ⟨q, hq, hhalfway⟩)]
    obtain ⟨m, e, hx, rfl⟩ := hsize
    exact ⟨m, e, hx, (isNearestNat_scaledNearest m e d).isNearestAway hv⟩

/-! ## Signs -/

/-- The double is finite and stands for the number. Zeros of both signs stand for zero. -/
def HasSignedValue (x : Float) (v : Rat) : Prop :=
  ∃ negative m e, exact x = .finite negative m e ∧
    (if negative then -(m * 2 ^ e) else m * 2 ^ e : Rat) = v

private theorem exact_abs (hx : exact x = .finite negative m e) :
    exact (abs x) = .finite false m e := by
  rw [abs, isNegative, hx]
  cases negative
  · exact hx
  · exact exact_neg hx

theorem HasSignedValue.hasValue_abs (h : HasSignedValue x v) : HasValue (abs x) |v| := by
  obtain ⟨negative, m, e, hx, rfl⟩ := h
  refine ⟨m, e, exact_abs hx, ?_⟩
  have hnonneg : (0 : Rat) ≤ m * 2 ^ e := by positivity
  cases negative
  · exact (abs_of_nonneg hnonneg).symm
  · rw [if_pos rfl, abs_neg, abs_of_nonneg hnonneg]

theorem HasSignedValue.lt_zero_iff (h : HasSignedValue x v) : x < 0 ↔ v < 0 := by
  obtain ⟨negative, m, e, hx, rfl⟩ := h
  have hpos : (0 : Rat) < 2 ^ e := zpow_pos two_pos e
  rw [Number.lt_zero_iff hx]
  cases negative
  · refine iff_of_false (fun h ↦ Bool.false_ne_true h.1) (not_lt.mpr ?_)
    exact mul_nonneg (Nat.cast_nonneg m) hpos.le
  · rw [if_pos rfl, neg_lt_zero, mul_pos_iff_of_pos_right hpos, Nat.cast_pos, Nat.pos_iff_ne_zero]
    exact and_iff_right rfl

/-! ## Texts -/

/-- Is the product with a power of ten a half in floating point exactly if it is one? -/
def SeesHalf (x : Float) (v : Rat) (d : Nat) : Prop :=
  (∃ q, HasValue (abs x * powerOfTen d) q ∧ IsHalfWay q) ↔ IsHalfWay (|v| * 10 ^ d)

/-- A product that is a double is the one that is computed. -/
theorem seesHalf_of_isDouble (hx : HasSignedValue x v) (hd : d ≤ 22)
    (h : IsDouble (|v| * 10 ^ d)) : SeesHalf x v d := by
  have hproduct := (hx.hasValue_abs.mul (hasValue_powerOfTen hd)).hasValue h
  refine ⟨?_, fun hhalf ↦ ⟨_, hproduct, hhalf⟩⟩
  rintro ⟨q, hq, hhalf⟩
  rwa [← hq.value_unique hproduct]

private theorem exists_fixedChars_eq (hx : HasSignedValue x v) (hlt : |v| < 10 ^ 21) (hd : d ≤ 100)
    (hhalf : SeesHalf x v d) : ∃ n, IsNearestAway (|v| * 10 ^ d) n ∧
      fixedChars x d = signText (v < 0) ++ withPoint n d := by
  have hbound : HasValue 1e21 (10 ^ 21) :=
    ⟨7629394531250000, 17, rfl, by norm_num⟩
  have hsmall : abs x < 1e21 := (hx.hasValue_abs.lt_iff hbound).mpr hlt
  obtain ⟨m, e, hexact, hnearest⟩ := exists_exact_moveHalfUp hx.hasValue_abs hd hhalf
  refine ⟨_, hnearest, ?_⟩
  rw [fixedChars, if_pos hsmall, hexact]
  simp only [hx.lt_zero_iff]

end Number

namespace Method

open Number (HasSignedValue IsFixed IsNearestAway SeesHalf signText)

variable {x : Float} {v : Rat} {d : Nat}

theorem toFixed_ofNumber (x : Float) (hd : d ≤ 100) :
    toFixed.ofNumber x [.number (Number.ofNat d)] =
      .ok (.string (String.ofList (Number.fixedChars x d))) := by
  have hclamp : Number.clampTrunc (-1) 101 (Number.ofNat d) = d := by
    rw [Number.clampTrunc_ofNat (-1) 101 (by omega)]
    omega
  show fixedValue x (.number (Number.ofNat d)) = _
  rw [fixedValue, Value.toNumber, hclamp, if_pos (by omega), Int.toNat_natCast, Number.fixedText]

/-- **A number is written with its digits rounded to the nearest, ties away from zero**, and with a
minus if it is below zero, provided that a half is seen as one. -/
theorem toFixed_eq (hx : HasSignedValue x v) (hlt : |v| < 10 ^ 21) (hd : d ≤ 100)
    (hhalf : SeesHalf x v d) : ∃ n t, IsNearestAway (|v| * 10 ^ d) n ∧ IsFixed d t n ∧
      toFixed.ofNumber x [.number (Number.ofNat d)] =
        .ok (.string (String.ofList (signText (v < 0) ++ t))) := by
  obtain ⟨n, hn, htext⟩ := Number.exists_fixedChars_eq hx hlt hd hhalf
  exact ⟨n, _, hn, Number.isFixed_withPoint n d, by rw [toFixed_ofNumber x hd, htext]⟩

/-- A half below zero goes away from zero. -/
theorem toFixed_eq_eighth : HasSignedValue (-0.125) (-1 / 8) ∧ |(-1 / 8 : Rat)| < 10 ^ 21 ∧
    2 ≤ 100 ∧ SeesHalf (-0.125) (-1 / 8) 2 ∧
    ∃ n t, IsNearestAway (|-1 / 8| * 10 ^ 2) n ∧ IsFixed 2 t n ∧
      toFixed.ofNumber (-0.125) [.number (Number.ofNat 2)] =
        .ok (.string (String.ofList (signText ((-1 / 8 : Rat) < 0) ++ t))) := by
  have hx : HasSignedValue (-0.125) (-1 / 8) :=
    ⟨true, 2 ^ 52, -55, rfl, by norm_num⟩
  have hdouble : Number.IsDouble (|-1 / 8| * 10 ^ 2) := by
    have hvalue : |(-1 / 8 : Rat)| * 10 ^ 2 = (25 : Nat) * 2 ^ (-1 : Int) := by
      rw [abs_of_neg (by norm_num)]
      norm_num
    rw [hvalue]
    exact Number.isDouble_mul_two_zpow (by decide) (by decide) (by decide)
  have hlt : |(-1 / 8 : Rat)| < 10 ^ 21 := by
    rw [abs_of_neg (by norm_num)]
    norm_num
  have hhalf := Number.seesHalf_of_isDouble hx (d := 2) (by decide) hdouble
  exact ⟨hx, hlt, by decide, hhalf, toFixed_eq hx hlt (by decide) hhalf⟩

/-- A half that is too large to be seen in floating point goes to the even neighbour. -/
theorem not_toFixed_eq : ¬∀ (x : Float) (v : Rat) (d : Nat), HasSignedValue x v → |v| < 10 ^ 21 →
    d ≤ 100 → ∃ n t, IsNearestAway (|v| * 10 ^ d) n ∧ IsFixed d t n ∧
      toFixed.ofNumber x [.number (Number.ofNat d)] =
        .ok (.string (String.ofList (signText (v < 0) ++ t))) := by
  intro h
  have habs : |(1801439850948201 / 4 : Rat)| = 1801439850948201 / 4 := abs_of_pos (by norm_num)
  obtain ⟨n, t, hn, ht, htext⟩ := h 450359962737050.25 (1801439850948201 / 4) 1
    ⟨false, 7205759403792804, -4, rfl, by norm_num⟩
    (by rw [habs]; norm_num) (by decide)
  have hchars : Number.fixedChars 450359962737050.25 1 = "450359962737050.2".toList := rfl
  rw [toFixed_ofNumber _ (by decide), hchars, decide_eq_false (by norm_num), signText,
    if_neg Bool.false_ne_true, List.nil_append] at htext
  obtain rfl : "450359962737050.2".toList = t :=
    String.ofList_injective (Value.string.inj (Except.ok.inj htext))
  have hdigits : Number.ofDigits 10 ("450359962737050.2".toList.filter Char.isDigit) =
      4503599627370502 := rfl
  obtain rfl : n = 4503599627370502 := ht.ofDigits_filter.symm.trans hdigits
  have hupper := hn.upper
  rw [habs] at hupper
  norm_num at hupper

end Method

end HtmlTemplate

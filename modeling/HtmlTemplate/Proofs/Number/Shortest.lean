import HtmlTemplate.Number.Shortest
import HtmlTemplate.Proofs.Number.Scientific

/-!
# The shortest decimal reads back

Whatever lies in the interval of a double is rounded to it (`isNearest_of_holds`). A grid point that
the search accepts lies there, and a grid that is finer than half the distance between two doubles
has such a point, so the search ends with one before its steps are used up: the decimal that is
found becomes the double again (`toFloat_shortest`). A natural number up to `2 ^ 53` is found
exactly (`exists_shortest_natCast`).

## The interval of a double

Every number between the two midpoints next to a double is rounded to it, and the midpoints
themselves are if its mantissa is even. Below a power of two the neighbours are closer, so the
interval is not symmetric there. All bounds are natural numbers on a common scale of the double and
the grid that is searched, so that the search compares integers only.
-/

namespace HtmlTemplate.Number

open Float.Model.UnpackedFloat (Sign)

variable {r : Rounding} {x : Float} {v : Rat} {m n step : Nat} {e g : Int}

/-! ## Intervals -/

/-- Does the interval hold the number? -/
def Rounding.Holds (r : Rounding) (x : Rat) : Prop :=
  if r.closed then r.low ≤ x ∧ x ≤ r.high else r.low < x ∧ x < r.high

namespace Rounding

theorem holds_iff (r : Rounding) (n : Nat) : r.holds n = true ↔ r.Holds n := by
  rw [holds, Holds]
  split
  · simp only [Bool.and_eq_true, decide_eq_true_eq, Nat.cast_le]
  · simp only [Bool.and_eq_true, decide_eq_true_eq, Nat.cast_lt]

theorem Holds.low_le {x : Rat} (h : r.Holds x) : r.low ≤ x := by
  rw [Holds] at h
  split at h
  · exact h.1
  · exact h.1.le

theorem Holds.le_high {x : Rat} (h : r.Holds x) : x ≤ r.high := by
  rw [Holds] at h
  split at h
  · exact h.2
  · exact h.2.le

theorem holds_of_lt {x : Rat} (hlow : r.low < x) (hhigh : x < r.high) : r.Holds x := by
  rw [Holds]
  split
  · exact ⟨hlow.le, hhigh.le⟩
  · exact ⟨hlow, hhigh⟩

theorem holds_scale {k : Nat} (hk : 0 < k) (x : Rat) : (r.scale k).Holds x ↔ r.Holds (x / k) := by
  have hpos : (0 : Rat) < k := by exact_mod_cast hk
  simp only [Holds, scale, Nat.cast_mul, le_div_iff₀ hpos, div_le_iff₀ hpos, lt_div_iff₀ hpos,
    div_lt_iff₀ hpos]

theorem holds_of_gridPoint {k : Nat} (h : r.gridPoint step = some k) :
    r.Holds (k * step : Nat) := by
  rw [← holds_iff]
  simp only [gridPoint] at h
  split at h
  · cases h
  · cases h
    assumption
  · cases h
    assumption
  · split at h <;> cases h <;> assumption

/-- Above the value the next point of a fine grid is in the interval. -/
theorem isSome_gridPoint_of_lt (hlow : r.low ≤ r.value) (hstep : 0 < step)
    (h : r.value + step < r.high) : (r.gridPoint step).isSome := by
  have habove : r.holds ((r.value / step + 1) * step) = true := by
    have hdiv := Nat.div_add_mod' r.value step
    have hmod := Nat.mod_lt r.value hstep
    rw [holds_iff]
    refine holds_of_lt ?_ ?_ <;> rw [Nat.cast_lt, Nat.add_mul] <;> omega
  simp only [gridPoint, habove]
  cases r.holds (r.value / step * step)
  · rfl
  · dsimp only
    split <;> rfl

theorem isSome_gridPoint_of_dvd (hlow : r.low < r.value) (hhigh : r.value < r.high)
    (h : step ∣ r.value) : (r.gridPoint step).isSome := by
  have hbelow : r.holds (r.value / step * step) = true := by
    rw [Nat.div_mul_cancel h, holds_iff]
    exact holds_of_lt (by exact_mod_cast hlow) (by exact_mod_cast hhigh)
  simp only [gridPoint, hbelow]
  cases r.holds ((r.value / step + 1) * step)
  · rfl
  · dsimp only
    split <;> rfl

/-! ### The interval of a double -/

variable {y : Rat}

private theorem low_add_two (m : Nat) (e : Int) : 4 * (m : Rat) ≤ (ofMantissa m e).low + 2 := by
  have : 4 * m ≤ (ofMantissa m e).low + 2 := by
    simp only [ofMantissa]
    split <;> omega
  exact_mod_cast this

private theorem high_eq (m : Nat) (e : Int) : ((ofMantissa m e).high : Rat) = 4 * m + 2 := by
  rw [ofMantissa]
  push_cast
  rfl

theorem isNearestNat_of_holds (h : (ofMantissa m e).Holds (4 * y)) : IsNearestNat y m where
  lower := by linarith [low_add_two m e, h.low_le]
  upper := by linarith [high_eq m e, h.le_high]
  even hend := by
    by_contra hodd
    have hopen : (ofMantissa m e).closed = false := beq_eq_false_iff_ne.mpr hodd
    rw [Holds, hopen, high_eq] at h
    have hlow := low_add_two m e
    have hlt : _ < _ ∧ _ < _ := h
    rcases hend with rfl | rfl <;> linarith [hlt.1, hlt.2]

theorem isNearestNat_two_mul_of_holds (he : -1074 < e) (h : (ofMantissa (2 ^ 52) e).Holds (4 * y))
    (hy : y ≤ 2 ^ 52) : IsNearestNat (2 * y) (2 ^ 53) := by
  have hlow : (ofMantissa (2 ^ 52) e).low = 4 * 2 ^ 52 - 1 := if_pos ⟨rfl, he⟩
  have hle := h.low_le
  rw [hlow] at hle
  norm_num at hle hy
  refine ⟨?_, ?_, fun _ ↦ rfl⟩ <;> push_cast <;> linarith

end Rounding

private theorem rounded_carry (s : Sign) (t : Int) :
    rounded s (2 ^ 53) t = rounded s (2 ^ 52) (t + 1) :=
  rfl

/-- **What lies in the interval of a double is rounded to it.** -/
theorem isNearest_of_holds (hx : exact x = .finite false m e) (hm : m ≠ 0)
    (h : (Rounding.ofMantissa m e).Holds (v / 2 ^ (e - 2))) : IsNearest v x := by
  have hc : IsCanonical m e := by
    obtain ⟨-, rfl, -⟩ | ⟨hc, -⟩ := unpack_of_exact hx
    · exact absurd rfl hm
    · exact hc
  obtain ⟨y, rfl⟩ : ∃ y, v = y * 2 ^ e :=
    ⟨v / 2 ^ e, (div_mul_cancel₀ v (zpow_pos two_pos e).ne').symm⟩
  have hy : y * 2 ^ e / 2 ^ (e - 2) = 4 * y := by
    rw [mul_div_assoc, ← zpow_sub₀ two_ne_zero, sub_sub_cancel, mul_comm]
    rfl
  rw [hy] at h
  have hnearest := Rounding.isNearestNat_of_holds h
  have hlt : (m : Rat) + 1 ≤ 2 ^ 53 := by exact_mod_cast hc.lt
  have hle := hc.le
  -- below the least mantissa the grid is twice as fine, and the value is rounded on that
  by_cases hsmall : y < 2 ^ 52 ∧ e ≠ -1074
  · obtain ⟨hsmall, he⟩ := hsmall
    obtain rfl : m = 2 ^ 52 := by
      have hupper : (m : Rat) < (2 ^ 52 : Nat) + 1 := by
        push_cast
        linarith [hnearest.lower]
      exact Nat.le_antisymm (Nat.le_of_lt_succ (by exact_mod_cast hupper))
        (hc.normal.resolve_right he)
    have hcarried :=
      Rounding.isNearestNat_two_mul_of_holds (lt_of_le_of_ne hle he.symm) h hsmall.le
    have hscale : y * 2 ^ e = 2 * y * 2 ^ (e - 1) := by
      rw [mul_right_comm, ← zpow_one_add₀ two_ne_zero, add_sub_cancel, mul_comm]
    refine ⟨2 ^ 53, e - 1, ?_, ?_⟩
    · rw [hscale]
      refine .of_scaled (by omega) (by linarith) (.inr ?_) hcarried
      have hlower := hnearest.lower
      norm_num at hlower ⊢
      linarith
    · rw [rounded_carry, sub_add_cancel]
      exact eq_of_exact hx
  · rw [not_and_or, not_ne_iff, not_lt] at hsmall
    exact ⟨m, e, .of_scaled hle (by linarith [hnearest.upper]) hsmall.symm hnearest,
      eq_of_exact hx⟩

/-! ## Grid points -/

theorem zpow_mul_pow_toNat {b : Rat} (hb : b ≠ 0) (e : Int) :
    b ^ e * b ^ (-e).toNat = b ^ e.toNat := by
  rw [← zpow_natCast, ← zpow_natCast, ← zpow_add₀ hb]
  congr 1
  omega

theorem scale_pos (e g : Int) : 0 < twoPow (e - 2).toNat * tenPow (-g).toNat :=
  Nat.mul_pos (Nat.pow_pos (by decide)) (Nat.pow_pos (by decide))

private theorem step_pos (e g : Int) : 0 < tenPow g.toNat * twoPow (2 - e).toNat :=
  Nat.mul_pos (Nat.pow_pos (by decide)) (Nat.pow_pos (by decide))

theorem step_mul (e g : Int) :
    ((tenPow g.toNat * twoPow (2 - e).toNat : Nat) : Rat) * 2 ^ (e - 2) =
      10 ^ g * (twoPow (e - 2).toNat * tenPow (-g).toNat : Nat) := by
  have hten := zpow_mul_pow_toNat (b := 10) (by norm_num) g
  have htwo := zpow_mul_pow_toNat (b := 2) two_ne_zero (e - 2)
  rw [neg_sub] at htwo
  have hcast (n : Nat) : (twoPow n : Rat) = 2 ^ n := by exact_mod_cast rfl
  have hcast' (n : Nat) : (tenPow n : Rat) = 10 ^ n := by exact_mod_cast rfl
  rw [Nat.cast_mul, Nat.cast_mul, hcast, hcast, hcast', hcast', ← hten, ← htwo]
  ring

theorem holds_of_gridPoint {k : Nat} (h : gridPoint m e g = some k) :
    (Rounding.ofMantissa m e).Holds (k * 10 ^ g / 2 ^ (e - 2)) := by
  have hholds := (Rounding.holds_scale (scale_pos e g) _).mp (Rounding.holds_of_gridPoint h)
  have hscale : ((twoPow (e - 2).toNat * tenPow (-g).toNat : Nat) : Rat) ≠ 0 :=
    Nat.cast_ne_zero.mpr (scale_pos e g).ne'
  have hvalue : (k : Rat) * 10 ^ g / 2 ^ (e - 2) =
      (k * (tenPow g.toNat * twoPow (2 - e).toNat) : Nat) /
        (twoPow (e - 2).toNat * tenPow (-g).toNat : Nat) := by
    rw [div_eq_div_iff (zpow_pos two_pos _).ne' hscale, mul_assoc, ← step_mul, Nat.cast_mul k,
      mul_assoc]
  rwa [hvalue]

private theorem isSome_gridPoint (hm : 0 < m) (h : (10 : Rat) ^ g < 2 ^ (e - 1)) :
    (gridPoint m e g).isSome := by
  set k := twoPow (e - 2).toNat * tenPow (-g).toNat with hk
  have hkpos : (0 : Rat) < k := Nat.cast_pos.mpr (scale_pos e g)
  have hstep : tenPow g.toNat * twoPow (2 - e).toNat < 2 * k := by
    have hlt : ((tenPow g.toNat * twoPow (2 - e).toNat : Nat) : Rat) * 2 ^ (e - 2) <
        (2 * k : Nat) * 2 ^ (e - 2) := by
      rw [step_mul, ← hk]
      calc (10 : Rat) ^ g * k
        _ < 2 ^ (e - 1) * k := mul_lt_mul_of_pos_right h hkpos
        _ = (2 * k : Nat) * 2 ^ (e - 2) := by
          rw [show e - 1 = 1 + (e - 2) by ring, zpow_add₀ two_ne_zero, zpow_one, Nat.cast_mul 2 k,
            Nat.cast_two, mul_right_comm]
    exact_mod_cast (mul_lt_mul_iff_left₀ (zpow_pos two_pos (e - 2))).mp hlt
  refine Rounding.isSome_gridPoint_of_lt ?_ (step_pos e g) ?_
  · refine Nat.mul_le_mul_right k ?_
    simp only [Rounding.ofMantissa]
    split <;> omega
  · show 4 * m * k + _ < (4 * m + 2) * k
    rw [Nat.add_mul]
    omega

/-! ## The search

Grids are tried from coarse to fine. One of them has a point in the interval as soon as its step is
less than half of the interval's length. -/

theorem exists_searchGrids {fuel j : Nat} (hj : j ≤ fuel) (h : (gridPoint m e (g - j)).isSome) :
    ∃ i ≤ j, ∃ k, gridPoint m e (g - i) = some k ∧ searchGrids m e fuel g = ⟨k, g - i⟩ := by
  induction fuel generalizing g j with
  | zero =>
    obtain rfl : j = 0 := Nat.le_zero.mp hj
    obtain ⟨k, hk⟩ := Option.isSome_iff_exists.mp h
    refine ⟨0, le_rfl, k, hk, ?_⟩
    rw [Nat.cast_zero, sub_zero] at hk ⊢
    rw [searchGrids, hk, Option.getD_some]
  | succ fuel ih =>
    rcases hfirst : gridPoint m e g with _ | k
    · obtain ⟨j, rfl⟩ : ∃ i, j = i + 1 := by
        refine Nat.exists_eq_succ_of_ne_zero ?_
        rintro rfl
        rw [Nat.cast_zero, sub_zero, hfirst] at h
        cases h
      have hsub (i : Nat) : g - (i + 1 : Nat) = g - 1 - i := by omega
      rw [hsub] at h
      obtain ⟨i, hi, k, hk, hsearch⟩ := ih (Nat.le_of_succ_le_succ hj) h
      refine ⟨i + 1, Nat.succ_le_succ hi, k, hsub i ▸ hk, ?_⟩
      rw [searchGrids, hfirst, hsub]
      exact hsearch
    · refine ⟨0, Nat.zero_le j, k, ?_, ?_⟩
      · rwa [Nat.cast_zero, sub_zero]
      · rw [searchGrids, hfirst, Nat.cast_zero, sub_zero]

theorem ten_zpow_lt {t : Int} (hlt : t ≤ 1100) (hle : -1100 ≤ t) :
    (10 : Rat) ^ (t * 30103 / 100000 - 19) < 2 ^ (t - 54) := by
  rcases le_or_gt 0 (t * 30103 / 100000 - 19) with hq | hq
  · obtain ⟨q, hq⟩ := Int.eq_ofNat_of_zero_le hq
    obtain ⟨k, hk⟩ : ∃ k : Nat, t - 54 = k := ⟨(t - 54).toNat, by omega⟩
    rw [hq, hk, zpow_natCast, zpow_natCast]
    refine lt_of_pow_lt_pow_left₀ 3 (by positivity) ?_
    calc ((10 : Rat) ^ q) ^ 3
      _ = (10 ^ 3) ^ q := pow_right_comm _ _ _
      _ ≤ (2 ^ 10) ^ q := pow_le_pow_left₀ (by norm_num) (by norm_num) q
      _ = 2 ^ (10 * q) := (pow_mul _ _ _).symm
      _ < 2 ^ (k * 3) := pow_lt_pow_right₀ one_lt_two (by omega)
      _ = (2 ^ k) ^ 3 := pow_mul _ _ _
  · obtain ⟨p, hp⟩ : ∃ p : Nat, t * 30103 / 100000 - 19 = -p :=
      ⟨(19 - t * 30103 / 100000).toNat, by omega⟩
    rw [hp]
    refine lt_of_pow_lt_pow_left₀ 28 (zpow_pos two_pos _).le ?_
    calc ((10 : Rat) ^ (-(p : Int))) ^ 28
      _ = ((10 ^ 28) ^ p)⁻¹ := by rw [zpow_neg, zpow_natCast, inv_pow, pow_right_comm]
      _ ≤ ((2 ^ 93) ^ p)⁻¹ :=
        inv_anti₀ (by positivity) (pow_le_pow_left₀ (by norm_num) (by norm_num) p)
      _ = 2 ^ (-(93 * p : Int)) := by
        rw [zpow_neg, ← pow_mul, ← zpow_natCast]
        push_cast
        rfl
      _ < 2 ^ ((t - 54) * 28) := zpow_lt_zpow_right₀ one_lt_two (by omega)
      _ = (2 ^ (t - 54)) ^ 28 := zpow_mul _ _ _

/-- **The shortest decimal lies in the interval of its double.** -/
theorem holds_shortest (hc : IsCanonical m e) :
    (Rounding.ofMantissa m e).Holds ((shortest m e).value / 2 ^ (e - 2)) := by
  have hlog : m.log2 < 53 := (Nat.log2_lt hc.pos.ne').mpr hc.lt
  have hle := hc.le
  have hmax := hc.le_max
  have hpower := ten_zpow_lt (t := m.log2 + 1 + e) (by omega) (by omega)
  have hlast : (gridPoint m e (gridAbove m e - (20 : Nat))).isSome := by
    refine isSome_gridPoint hc.pos ?_
    calc (10 : Rat) ^ (gridAbove m e - (20 : Nat))
      _ = 10 ^ ((m.log2 + 1 + e) * 30103 / 100000 - 19) := by
        rw [gridAbove]
        congr 1
        omega
      _ < 2 ^ ((m.log2 : Int) + 1 + e - 54) := hpower
      _ ≤ 2 ^ (e - 1) := two_zpow_le (by omega)
  obtain ⟨i, -, k, hk, hsearch⟩ := exists_searchGrids (Nat.le_refl 20) hlast
  rw [shortest, hsearch]
  exact holds_of_gridPoint hk

/-- **The shortest decimal of a double becomes the double again.** -/
theorem toFloat_shortest (hx : exact x = .finite false m e) (hm : m ≠ 0) :
    (shortest m e).toFloat = x := by
  obtain ⟨-, rfl, -⟩ | ⟨hc, -⟩ := unpack_of_exact hx
  · exact absurd rfl hm
  · exact (shortest m e).isNearest_toFloat.unique (isNearest_of_holds hx hm (holds_shortest hc))

/-! ## Natural numbers -/

private theorem isSome_gridPoint_zero (hc : IsCanonical m e) (h : twoPow (2 - e).toNat ∣ 4 * m) :
    (gridPoint m e 0).isSome := by
  have hscale := scale_pos e 0
  refine Rounding.isSome_gridPoint_of_dvd ?_ ?_ ?_
  · refine Nat.mul_lt_mul_of_pos_right ?_ hscale
    have := hc.pos
    simp only [Rounding.ofMantissa]
    split <;> omega
  · exact Nat.mul_lt_mul_of_pos_right (Nat.lt_add_of_pos_right two_pos) hscale
  · show 1 * twoPow (2 - e).toNat ∣ 4 * m * _
    rw [Nat.one_mul]
    exact Dvd.dvd.mul_right h _

private theorem eq_of_holds {k g : Nat} (he : e ≤ 0) (hn : (m : Rat) * 2 ^ e = n)
    (h : (Rounding.ofMantissa m e).Holds (k * 10 ^ (g : Int) / 2 ^ (e - 2))) : k * 10 ^ g = n := by
  have hpos : (0 : Rat) < 2 ^ e := zpow_pos two_pos e
  have hle : (2 : Rat) ^ e ≤ 1 := zpow_le_one_of_nonpos₀ one_le_two he
  set y := (k * 10 ^ g : Rat) / 2 ^ e with hy
  have hvalue : (k : Rat) * 10 ^ (g : Int) / 2 ^ (e - 2) = 4 * y := by
    rw [hy, zpow_natCast, zpow_sub₀ two_ne_zero]
    field_simp
    norm_num
  rw [hvalue] at h
  have hnearest := Rounding.isNearestNat_of_holds h
  have hk : ((k * 10 ^ g : Nat) : Rat) = y * 2 ^ e := by
    rw [hy, div_mul_cancel₀ _ hpos.ne']
    push_cast
    rfl
  -- the two natural numbers are a half apart at most
  have hupper := mul_le_mul_of_nonneg_right hnearest.upper hpos.le
  have hlower := mul_le_mul_of_nonneg_right hnearest.lower hpos.le
  rw [add_mul, hn, ← hk] at hupper
  rw [sub_mul, hn, ← hk] at hlower
  have hle' : ((k * 10 ^ g : Nat) : Rat) < n + 1 := by linarith
  have hge' : (n : Rat) < (k * 10 ^ g : Nat) + 1 := by linarith
  exact Nat.le_antisymm (Nat.le_of_lt_succ (by exact_mod_cast hle'))
    (Nat.le_of_lt_succ (by exact_mod_cast hge'))

private theorem exists_shortest_shiftLeft (hn : 0 < n) (hlt : n < 2 ^ 53) :
    ∃ k g : Nat, shortest (n <<< (52 - n.log2)) (n.log2 - 52) = ⟨k, g⟩ ∧ k * 10 ^ g = n := by
  have hlog : n.log2 < 53 := (Nat.log2_lt hn.ne').mpr hlt
  have hc := isCanonical_shiftLeft hn hlt (Nat.zero_le 900)
  have hvalue := shiftLeft_mul_two_zpow hn hlt 0
  rw [Nat.cast_zero, add_zero] at hc hvalue
  rw [pow_zero, mul_one] at hvalue
  set m := n <<< (52 - n.log2) with hm
  set e := (n.log2 : Int) - 52 with he
  have hmlog : m.log2 = 52 := by
    rw [hm, log2_shiftLeft hn.ne']
    omega
  have hzero : (gridPoint m e 0).isSome := by
    refine isSome_gridPoint_zero hc ⟨n, ?_⟩
    have hexp : (2 - e).toNat = 2 + (52 - n.log2) := by omega
    rw [hexp, hm, Nat.shiftLeft_eq, twoPow, Nat.pow_eq, Nat.pow_add, Nat.mul_right_comm,
      Nat.mul_assoc]
  obtain ⟨j, hj, hjle⟩ : ∃ j : Nat, gridAbove m e - j = 0 ∧ j ≤ 20 := by
    refine ⟨(gridAbove m e).toNat, ?_, ?_⟩ <;> rw [gridAbove, hmlog] <;> omega
  obtain ⟨i, hi, k, hk, hsearch⟩ := exists_searchGrids hjle (hj ▸ hzero)
  obtain ⟨g, hg⟩ : ∃ g : Nat, gridAbove m e - i = g := ⟨(gridAbove m e - i).toNat, by omega⟩
  rw [hg] at hk hsearch
  exact ⟨k, g, hsearch, eq_of_holds (by omega) hvalue (holds_of_gridPoint hk)⟩

/-- The shortest decimal of a natural number up to `2 ^ 53` is that number. -/
theorem exists_shortest_natCast (hx : HasValue x n) (hn : 0 < n) (hle : n ≤ 2 ^ 53) :
    ∃ m e, ∃ k g : Nat, exact x = .finite false m e ∧ m ≠ 0 ∧ shortest m e = ⟨k, g⟩ ∧
      k * 10 ^ g = n := by
  obtain ⟨m, e, hx, hv⟩ := hx
  obtain ⟨-, rfl, -⟩ | ⟨hc, -⟩ := unpack_of_exact hx
  · rw [Nat.cast_zero, zero_mul, eq_comm, Nat.cast_eq_zero] at hv
    exact absurd hv hn.ne'
  refine ⟨m, e, ?_⟩
  rcases hle.lt_or_eq with hlt | rfl
  · have hvalue := shiftLeft_mul_two_zpow hn hlt 0
    rw [pow_zero, mul_one, ← hv] at hvalue
    obtain ⟨hm, he⟩ := (isCanonical_shiftLeft hn hlt (Nat.zero_le 900)).unique hc hvalue
    rw [Nat.cast_zero, add_zero] at he
    obtain ⟨k, g, hshortest, hk⟩ := exists_shortest_shiftLeft hn hlt
    rw [hm, he] at hshortest
    exact ⟨k, g, hx, hc.pos.ne', hshortest, hk⟩
  · have htop : IsCanonical (2 ^ 52) 1 := by constructor <;> decide
    obtain ⟨rfl, rfl⟩ := hc.unique htop (hv.trans (by norm_num))
    exact ⟨2 ^ 53, 0, hx, hc.pos.ne', rfl, rfl⟩

end HtmlTemplate.Number

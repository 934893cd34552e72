import HtmlTemplate.Number.Layout
import HtmlTemplate.Number.Radix
import HtmlTemplate.Proofs.Text.Scanning
import Mathlib.Data.List.Induction
import Mathlib.Tactic.IntervalCases
import Mathlib.Tactic.Ring

/-!
# Digits of natural numbers

The digits of a natural number in a base up to 36 read back (`ofDigits_radixDigits`), are digits of
the base in lower case, and begin with a zero for zero only. Decimal digits are those of the base
ten, so the same is true of them; a power of ten puts zeros behind them, and digits without a
superfluous zero in front are those of the number that they stand for (`eq_decimalDigits`).

## One induction

The digits of a number in a base are those of its quotient and then its remainder, and a number
below the base is one digit (`radixDigits_induction`). The claims about digits are proved by this,
and those about decimal digits are taken over from them.
-/

namespace HtmlTemplate.Number

variable {base n : Nat} {two_le : 2 ≤ base}

/-! ## Reading digits

Reading goes from the left, so digits behind others multiply what stands in front by a power of the
base. -/

theorem ofDigits_append (base : Nat) (ds es : List Char) :
    ofDigits base (ds ++ es) = ofDigits base ds * base ^ es.length + ofDigits base es := by
  have hfold (ds : List Char) (n : Nat) :
      ds.foldl (fun n c ↦ n * base + digitValue c) n = n * base ^ ds.length + ofDigits base ds := by
    induction ds generalizing n with
    | nil => simp [ofDigits]
    | cons c ds ih =>
      rw [ofDigits, List.foldl_cons, List.foldl_cons, ih, ih (0 * base + digitValue c),
        List.length_cons, Nat.pow_succ]
      ring
  rw [ofDigits, List.foldl_append, hfold es, ← ofDigits]

theorem ofDigits_singleton (base : Nat) (c : Char) : ofDigits base [c] = digitValue c := by
  rw [ofDigits, List.foldl_cons, List.foldl_nil, Nat.zero_mul, Nat.zero_add]

theorem ofDigits_lt {base : Nat} {ds : List Char} (h : ∀ c ∈ ds, isDigitOf base c = true) :
    ofDigits base ds < base ^ ds.length := by
  induction ds with
  | nil => exact Nat.one_pos
  | cons c ds ih =>
    obtain ⟨hc, hds⟩ := List.forall_mem_cons.mp h
    have hc : digitValue c < base := of_decide_eq_true hc
    rw [← List.singleton_append, ofDigits_append, ofDigits_singleton]
    calc digitValue c * base ^ ds.length + ofDigits base ds
        < digitValue c * base ^ ds.length + base ^ ds.length := Nat.add_lt_add_left (ih hds) _
      _ = (digitValue c + 1) * base ^ ds.length := (Nat.succ_mul _ _).symm
      _ ≤ base * base ^ ds.length := Nat.mul_le_mul_right _ hc
      _ = base ^ ([c] ++ ds).length := by
        rw [List.singleton_append, List.length_cons, Nat.pow_succ']

theorem ofDigits_zeros (base n : Nat) : ofDigits base (zeros n) = 0 := by
  induction n with
  | zero => rfl
  | succ n ih =>
    rw [zeros, List.replicate_succ', ofDigits_append, ← zeros, ih, Nat.zero_mul,
      ofDigits_singleton]
    rfl

theorem ofDigits_zeros_append (base n : Nat) (ds : List Char) :
    ofDigits base (zeros n ++ ds) = ofDigits base ds := by
  rw [ofDigits_append, ofDigits_zeros, Nat.zero_mul, Nat.zero_add]

/-! ## The digits of a base -/

theorem digitValue_digitChar (h : n < 36) : digitValue (digitChar n) = n := by
  have hall : ∀ n : Fin 36, digitValue (digitChar n) = n := by decide
  exact hall ⟨n, h⟩

theorem digitChar_eq_zero_iff (h : n < 36) : digitChar n = '0' ↔ n = 0 := by
  have hall : ∀ n : Fin 36, digitChar n = '0' ↔ n.val = 0 := by decide
  exact hall ⟨n, h⟩

theorem radixDigits_of_lt (h : n < base) : radixDigits base n two_le = [digitChar n] := by
  rw [radixDigits, digitsFromLeast, if_pos h, List.reverse_singleton]

theorem radixDigits_of_le (h : base ≤ n) :
    radixDigits base n two_le = radixDigits base (n / base) two_le ++ [digitChar (n % base)] := by
  rw [radixDigits, digitsFromLeast, if_neg (by omega), List.reverse_cons, ← radixDigits]

theorem radixDigits_induction {motive : Nat → List Char → Prop} (two_le : 2 ≤ base)
    (digit : ∀ n < base, motive n [digitChar n])
    (step : ∀ n, base ≤ n → motive (n / base) (radixDigits base (n / base) two_le) →
      motive n (radixDigits base (n / base) two_le ++ [digitChar (n % base)])) (n : Nat) :
    motive n (radixDigits base n two_le) := by
  induction n using Nat.strongRecOn with
  | ind n ih =>
    rcases Nat.lt_or_ge n base with hlt | hle
    · rw [radixDigits_of_lt hlt]
      exact digit n hlt
    · rw [radixDigits_of_le hle]
      exact step n hle (ih _ (Nat.div_lt_self (by omega) two_le))

/-- **The digits of a natural number read back.** -/
theorem ofDigits_radixDigits (two_le : 2 ≤ base) (le : base ≤ 36) (n : Nat) :
    ofDigits base (radixDigits base n two_le) = n := by
  refine radixDigits_induction (motive := fun n ds ↦ ofDigits base ds = n) two_le
    (fun n hlt ↦ ?_) (fun n hle ih ↦ ?_) n
  · rw [ofDigits_singleton, digitValue_digitChar (by omega)]
  · have hmod := Nat.mod_lt n (by omega : base > 0)
    rw [ofDigits_append, ih, ofDigits_singleton, digitValue_digitChar (by omega),
      List.length_singleton, Nat.pow_one, Nat.div_add_mod']

theorem exists_of_mem_radixDigits {c : Char} (h : c ∈ radixDigits base n two_le) :
    ∃ k < base, c = digitChar k := by
  revert h
  refine radixDigits_induction (motive := fun _ ds ↦ c ∈ ds → ∃ k < base, c = digitChar k) two_le
    (fun n hlt h ↦ ?_) (fun n hle ih h ↦ ?_) n
  · exact ⟨n, hlt, List.mem_singleton.mp h⟩
  · rcases List.mem_append.mp h with h | h
    · exact ih h
    · exact ⟨n % base, Nat.mod_lt n (by omega), List.mem_singleton.mp h⟩

theorem isDigitOf_of_mem_radixDigits (le : base ≤ 36) {c : Char}
    (h : c ∈ radixDigits base n two_le) : isDigitOf base c = true := by
  obtain ⟨k, hk, rfl⟩ := exists_of_mem_radixDigits h
  rw [isDigitOf, digitValue_digitChar (by omega)]
  exact decide_eq_true hk

theorem exists_radixDigits_eq_cons (two_le : 2 ≤ base) (le : base ≤ 36) (n : Nat) :
    ∃ c ds, radixDigits base n two_le = c :: ds ∧ (c = '0' → n = 0 ∧ ds = []) := by
  refine radixDigits_induction
    (motive := fun n digits ↦ ∃ c ds, digits = c :: ds ∧ (c = '0' → n = 0 ∧ ds = [])) two_le
    (fun n hlt ↦ ?_) (fun n hle ih ↦ ?_) n
  · exact ⟨digitChar n, [], rfl, fun h ↦ ⟨(digitChar_eq_zero_iff (by omega)).mp h, rfl⟩⟩
  · obtain ⟨c, ds, hds, hc⟩ := ih
    refine ⟨c, ds ++ [digitChar (n % base)], by rw [hds, List.cons_append], fun h ↦ ?_⟩
    have := Nat.div_pos hle (by omega)
    exact absurd (hc h).1 (by omega)

theorem radixDigits_ne_nil (two_le : 2 ≤ base) (le : base ≤ 36) (n : Nat) :
    radixDigits base n two_le ≠ [] := by
  obtain ⟨c, ds, h, -⟩ := exists_radixDigits_eq_cons two_le le n
  rw [h]
  exact List.cons_ne_nil c ds

/-! ## Decimal digits -/

theorem digitChar_eq (h : n < 10) : Nat.digitChar n = digitChar n := by
  interval_cases n <;> rfl

theorem decimalDigits_eq (n : Nat) : decimalDigits n = radixDigits 10 n (by decide) := by
  induction n using Nat.strongRecOn with
  | ind n ih =>
    rw [decimalDigits, Nat.toDigits_eq_if (by decide)]
    split
    next hlt => rw [radixDigits_of_lt hlt, digitChar_eq hlt]
    next hge =>
      rw [radixDigits_of_le (Nat.le_of_not_lt hge), ← ih _ (Nat.div_lt_self (by omega) (by decide)),
        digitChar_eq (Nat.mod_lt n (by decide)), decimalDigits]

theorem ofDigits_decimalDigits (n : Nat) : ofDigits 10 (decimalDigits n) = n := by
  rw [decimalDigits_eq]
  exact ofDigits_radixDigits _ (by decide) n

theorem isDigit_of_mem_decimalDigits {c : Char} (h : c ∈ decimalDigits n) : c.isDigit = true :=
  Nat.isDigit_of_mem_toDigits (by decide) (by decide) h

theorem exists_decimalDigits_eq_cons (n : Nat) :
    ∃ c ds, decimalDigits n = c :: ds ∧ (c = '0' → n = 0 ∧ ds = []) := by
  rw [decimalDigits_eq]
  exact exists_radixDigits_eq_cons _ (by decide) n

theorem decimalDigits_ne_nil (n : Nat) : decimalDigits n ≠ [] := by
  rw [decimalDigits_eq]
  exact radixDigits_ne_nil _ (by decide) n

theorem decimalDigits_append (hn : 0 < n) {k : Nat} (hk : k < 10) :
    decimalDigits (n * 10 + k) = decimalDigits n ++ [digitChar k] := by
  rw [Nat.mul_comm, decimalDigits, ← Nat.toDigits_append_toDigits (by decide) hn hk,
    Nat.toDigits_of_lt_base hk, digitChar_eq hk, decimalDigits]

theorem decimalDigits_mul_ten_pow (hn : 0 < n) (g : Nat) :
    decimalDigits (n * 10 ^ g) = decimalDigits n ++ zeros g := by
  induction g with
  | zero => rw [Nat.pow_zero, Nat.mul_one, zeros, List.replicate_zero, List.append_nil]
  | succ g ih =>
    have hpos : 0 < n * 10 ^ g := Nat.mul_pos hn (Nat.pow_pos (by decide))
    rw [zeros, List.replicate_succ', ← zeros, ← List.append_assoc, ← ih, Nat.pow_succ,
      ← Nat.mul_assoc]
    exact decimalDigits_append hpos (k := 0) (by decide)

theorem digitChar_digitValue {c : Char} (hc : c.isDigit = true) :
    digitValue c < 10 ∧ digitChar (digitValue c) = c := by
  have hrange := Text.isDigit_iff.mp hc
  have hvalue : digitValue c = c.toNat - 48 := by
    rw [digitValue, if_pos hc]
    rfl
  refine ⟨by omega, ?_⟩
  rw [digitChar, if_pos (by omega), hvalue]
  have : '0'.toNat + (c.toNat - 48) = c.toNat := by
    show 48 + (c.toNat - 48) = c.toNat
    omega
  rw [this, Char.ofNat_toNat]

/-- **Digits are those of the number that they stand for** unless a zero in front is superfluous. -/
theorem eq_decimalDigits {ds : List Char} (ne : ds ≠ []) (digits : ∀ c ∈ ds, c.isDigit = true)
    (hzero : ∀ es, ds = '0' :: es → es = []) : ds = decimalDigits (ofDigits 10 ds) := by
  induction ds using List.reverseRecOn with
  | nil => exact absurd rfl ne
  | append_singleton ds c ih =>
    obtain ⟨hlt, hchar⟩ := digitChar_digitValue (digits c (by simp))
    rcases eq_or_ne ds [] with rfl | hds
    · rw [List.nil_append, ofDigits_singleton, decimalDigits, Nat.toDigits_of_lt_base hlt,
        digitChar_eq hlt, hchar]
    · have hzero' : ∀ es, ds ≠ '0' :: es := by
        rintro es rfl
        exact absurd (hzero (es ++ [c]) rfl) (by simp)
      have heq := ih hds (fun c' hc' ↦ digits c' (List.mem_append_left _ hc'))
        fun es h ↦ absurd h (hzero' es)
      have hpos : 0 < ofDigits 10 ds := by
        refine Nat.pos_of_ne_zero fun h0 ↦ hzero' [] ?_
        rw [heq, h0]
        rfl
      rw [ofDigits_append, ofDigits_singleton, List.length_singleton, Nat.pow_one,
        decimalDigits_append hpos hlt, ← heq, hchar]

end HtmlTemplate.Number

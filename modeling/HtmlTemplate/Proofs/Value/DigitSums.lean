import HtmlTemplate.Proofs.Number.ReadBack
import HtmlTemplate.Proofs.Number.Representable
import HtmlTemplate.Proofs.Value.RadixText

/-!
# Decimal digits as an integer and as a number

A text of decimal digits is read in two ways: as a number it is the double nearest to its value,
rounded once (`call_number_of_digits`), as an integer its digits are added up in floating point, and
every step rounds. The two agree as long as no sum before the last has to be rounded
(`AddsExactly`), and so for every number up to `2 ^ 53` (`addsExactly_of_le`). Behind a sum that was
rounded, the last digit can no longer lift the number to the double nearest to its value
(`parseInt_ne_number`).

## Where the two differ

The sum is taken from the left: ten times what there is, and then the next digit. Both steps are
exact as long as the result is a double, and for that it is enough that the product is one, since a
digit added to it is rounded only if it is the last. From there on nothing is promised. The smallest
such text is one number above `2 ^ 53`.
-/

namespace HtmlTemplate

namespace Number

variable {n : Nat} {p ds : List Char}

/-! ## Sums of digits -/

/-- Is every sum of the digits, ten times over, a double until the last digit is added? -/
def AddsExactly (ds : List Char) : Prop :=
  ∀ p, p <+: ds → p ≠ ds → IsDouble (ofDigits 10 p * 10 : Nat)

theorem isDouble_of_mul_ten (h : IsDouble (n * 10 : Nat)) : IsDouble n := by
  obtain ⟨x, hx⟩ := h
  obtain ⟨h0, -⟩ | ⟨m, e, hc, hv, -⟩ := hx.zero_or_finite
  · obtain rfl : n = 0 := by
      have : n * 10 = 0 := by exact_mod_cast h0
      omega
    exact isDouble_natCast (Nat.zero_le _)
  rcases le_or_gt e 0 with he | he
  · have hle : (n * 10 : Nat) ≤ (m : Rat) := by
      rw [hv]
      exact mul_le_of_le_one_right (Nat.cast_nonneg m) (zpow_le_one_of_nonpos₀ one_le_two he)
    have hle : n * 10 ≤ m := by exact_mod_cast hle
    have := hc.lt
    exact isDouble_natCast (by omega)
  · obtain ⟨k, rfl⟩ : ∃ k : Nat, e = k + 1 := ⟨(e - 1).toNat, by omega⟩
    have hv : n * 10 = m * 2 ^ (k + 1) := by exact_mod_cast hv
    rw [pow_succ, ← Nat.mul_assoc] at hv
    obtain ⟨j, rfl⟩ : 5 ∣ m :=
      ((by decide : Nat.Coprime 5 2).pow_right k).dvd_of_dvd_mul_right ⟨n, by omega⟩
    rw [Nat.mul_assoc 5] at hv
    obtain rfl : n = j * 2 ^ k := by omega
    have hlt := hc.lt
    have hmax := hc.le_max
    have := isDouble_mul_two_zpow (n := j) (e := k) (by omega) (by omega) (by omega)
    rwa [zpow_natCast, ← Nat.cast_ofNat, ← Nat.cast_pow, ← Nat.cast_mul] at this

theorem AddsExactly.of_prefix (h : AddsExactly ds) (hp : p <+: ds) : AddsExactly p := by
  intro q hq hne
  refine h q (hq.trans hp) fun heq ↦ hne ?_
  subst heq
  exact hq.eq_of_length (Nat.le_antisymm hq.length_le hp.length_le)

/-- **Digits that add up exactly are rounded once**, when the last one is added. -/
theorem AddsExactly.isNearest (h : AddsExactly ds) (digits : ∀ c ∈ ds, c.isDigit = true) :
    IsNearest (ofDigits 10 ds) (sumDigits 10 ds) := by
  induction ds using List.reverseRecOn with
  | nil => exact (hasValue_ofNat (Nat.zero_le _)).isNearest
  | append_singleton ds c ih =>
    have hc := (digitChar_digitValue (digits c (by simp))).1
    have hprefix := List.prefix_append ds [c]
    have hproduct := h ds hprefix (by simp)
    have ih := ih (h.of_prefix hprefix) fun c' hc' ↦ digits c' (List.mem_append_left _ hc')
    have hsum := ih.hasValue (isDouble_of_mul_ten hproduct)
    have hmul := hsum.mul (hasValue_ofNat (by decide : 10 ≤ 2 ^ 53))
    rw [← Nat.cast_mul] at hmul
    have hadd := (hmul.hasValue hproduct).add (hasValue_ofNat (n := digitValue c) (by omega))
    rw [← Nat.cast_add] at hadd
    rwa [sumDigits_append_singleton, ofDigits_append, ofDigits_singleton, List.length_singleton,
      Nat.pow_one]

private theorem ofDigits_prefix_le (hp : p <+: ds) (hne : p ≠ ds) :
    ofDigits 10 p * 10 ≤ ofDigits 10 ds / 10 * 10 := by
  obtain ⟨t, rfl⟩ := hp
  have ht : t ≠ [] := by
    rintro rfl
    exact hne (List.append_nil p).symm
  obtain ⟨k, hk⟩ : ∃ k, t.length = k + 1 :=
    Nat.exists_eq_succ_of_ne_zero (by simpa using ht)
  have hle : ofDigits 10 p ≤ ofDigits 10 p * 10 ^ k := Nat.le_mul_of_pos_right _ (by positivity)
  rw [ofDigits_append, hk, Nat.pow_succ, ← Nat.mul_assoc]
  omega

/-- Up to `2 ^ 53`, the last digit apart, all sums are exact. -/
theorem addsExactly_of_le (h : ofDigits 10 ds / 10 * 10 ≤ 2 ^ 53) : AddsExactly ds :=
  fun _ hp hne ↦ isDouble_natCast ((ofDigits_prefix_le hp hne).trans h)

/-! ## Reading digits -/

private theorem isDigitOf_ten_of_isDigit {c : Char} (hc : c.isDigit = true) :
    isDigitOf 10 c = true :=
  decide_eq_true (digitChar_digitValue hc).1

theorem integerInFront_of_digits (ne : ds ≠ []) (digits : ∀ c ∈ ds, c.isDigit = true) :
    integerInFront (String.ofList ds) 0 = sumDigits 10 ds := by
  have hmark := (Denotes.positional (.whole ne digits)).isDecimal.dropHexMark_eq
  have htake : ds.takeWhile (isDigitOf 10) = ds :=
    List.takeWhile_eq_self_iff.mpr fun c hc ↦ isDigitOf_ten_of_isDigit (digits c hc)
  have hscan : Decimal.scanSign (Text.trimStart ds) = (false, ds) := by
    obtain ⟨c, cs, rfl⟩ := List.exists_cons_of_ne_nil ne
    have hc := digits c List.mem_cons_self
    rw [Text.trimStart_cons_of_not_blank _ (isBlank_of_isNumberChar (isNumberChar_of_isDigit hc)),
      scanSign_of_isDigit hc]
  rw [integerInFront, String.toList_ofList, hscan]
  simp only [ne_eq, not_true_eq_false, false_and, if_false, true_or, if_true, hmark, htake,
    List.isEmpty_iff, ne]
  rfl

end Number

namespace Builtin

open Number (AddsExactly IsNearest ofDigits)

variable {s : String}

theorem call_number_of_digits (ne : s ≠ "") (digits : ∀ c ∈ s.toList, c.isDigit = true) :
    ∃ x, IsNearest (ofDigits 10 s.toList) x ∧ number.call [.string s] = .ok (.number x) := by
  obtain ⟨x, hx, htext, -⟩ :=
    (Number.Denotes.positional (.whole (by simpa using ne) digits)).exists_isNearest
  refine ⟨x, hx, ?_⟩
  have htext := htext false
  rw [Number.signText, if_neg Bool.false_ne_true, List.nil_append, String.ofList_toList] at htext
  show Except.ok (Value.number (Number.ofText s)) = _
  rw [htext]
  rfl

/-- **Digits that add up exactly are the same number in both ways of reading**: the double that is
nearest to their value. -/
theorem parseInt_eq_number (ne : s ≠ "") (digits : ∀ c ∈ s.toList, c.isDigit = true)
    (h : AddsExactly s.toList) : ∃ x, IsNearest (ofDigits 10 s.toList) x ∧
      parseInt.call [.string s] = .ok (.number x) ∧ number.call [.string s] = .ok (.number x) := by
  obtain ⟨x, hx, hnumber⟩ := call_number_of_digits ne digits
  refine ⟨x, hx, ?_, hnumber⟩
  have hread := Number.integerInFront_of_digits (by simpa using ne) digits
  rw [String.ofList_toList] at hread
  show Except.ok (Value.number (Number.integerInFront s 0)) = _
  rw [hread, (h.isNearest digits).unique hx]

/-- Only the last digit is rounded. -/
theorem parseInt_eq_number_sixteen_digits : "9007199254740993" ≠ "" ∧
    (∀ c ∈ "9007199254740993".toList, c.isDigit = true) ∧ AddsExactly "9007199254740993".toList ∧
    ∃ x, IsNearest (ofDigits 10 "9007199254740993".toList) x ∧
      parseInt.call [.string "9007199254740993"] = .ok (.number x) ∧
      number.call [.string "9007199254740993"] = .ok (.number x) :=
  have digits : ∀ c ∈ "9007199254740993".toList, c.isDigit = true :=
    List.all_eq_true.mp rfl
  have hadds : AddsExactly "9007199254740993".toList :=
    Number.addsExactly_of_le (by decide +kernel)
  ⟨by decide, digits, hadds, parseInt_eq_number (by decide) digits hadds⟩

/-- The first sixteen digits are rounded to `9007199254740992`, and the seventeenth no longer lifts
the number to the nearest double. -/
theorem parseInt_ne_number : ¬∀ s : String, s ≠ "" → (∀ c ∈ s.toList, c.isDigit = true) →
    parseInt.call [.string s] = number.call [.string s] := by
  intro h
  have hcall : Except.ok (Value.number (Number.integerInFront "90071992547409935" 0)) =
      Except.ok (Value.number (Number.ofText "90071992547409935")) :=
    h "90071992547409935" (by decide) (List.all_eq_true.mp rfl)
  have hexact := congrArg Number.exact (Value.number.inj (Except.ok.inj hcall))
  exact absurd hexact (by decide +kernel)

end Builtin

end HtmlTemplate

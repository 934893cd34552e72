import HtmlTemplate.Proofs.Number.Grammar

/-!
# The text of a decimal and its value

What a written number denotes is defined on the text alone: digits with an optional point, and then
an exponent with a sign (`Denotes`). Each of the four layouts of a decimal denotes its value
(`Decimal.denotes_text`), and the scanner reads such a text to its end, as a decimal with the value
that the text denotes (`Denotes.exists_scan`).

## Four layouts

Where the point stands decides the layout: behind all digits with zeros in between, among the
digits, in front of them with zeros in between, or behind the first digit with an exponent. The
first three are digits with a point (`IsPositional`), and each moves the point by a number of places
that the value has to make up for.
-/

namespace HtmlTemplate.Number

/-! ## Written numbers

The grammar here is only that of the texts that are written. It is a part of the one that is read
(`Denotes.isDecimal`). -/

/-- Digits with an optional point, and their value. -/
inductive IsPositional : List Char → Rat → Prop
  | whole {ds : List Char} (ne : ds ≠ []) (digits : ∀ c ∈ ds, c.isDigit = true) :
    IsPositional ds (ofDigits 10 ds)
  | point {ds fs : List Char} (ne : ds ≠ []) (digits : ∀ c ∈ ds, c.isDigit = true)
    (ne' : fs ≠ []) (digits' : ∀ c ∈ fs, c.isDigit = true) :
    IsPositional (ds ++ '.' :: fs) (ofDigits 10 ds + ofDigits 10 fs / 10 ^ fs.length)

/-- The text of a number without a sign, and its value. -/
inductive Denotes : List Char → Rat → Prop
  | positional {s : List Char} {v : Rat} (h : IsPositional s v) : Denotes s v
  | up {s es : List Char} {v : Rat} (h : IsPositional s v) (ne : es ≠ [])
    (digits : ∀ c ∈ es, c.isDigit = true) :
    Denotes (s ++ 'e' :: '+' :: es) (v * 10 ^ ofDigits 10 es)
  | down {s es : List Char} {v : Rat} (h : IsPositional s v) (ne : es ≠ [])
    (digits : ∀ c ∈ es, c.isDigit = true) :
    Denotes (s ++ 'e' :: '-' :: es) (v / 10 ^ ofDigits 10 es)

variable {s t ds fs : List Char} {v : Rat} {d : Decimal}

/-! ## Layouts -/

theorem isDigit_of_mem_zeros {c : Char} {n : Nat} (h : c ∈ zeros n) : c.isDigit = true := by
  rw [(List.mem_replicate.mp h).2]
  rfl

private theorem isDigit_of_mem_append (hds : ∀ c ∈ ds, c.isDigit = true)
    (hfs : ∀ c ∈ fs, c.isDigit = true) : ∀ c ∈ ds ++ fs, c.isDigit = true :=
  fun c hc ↦ (List.mem_append.mp hc).elim (hds c) (hfs c)

theorem isPositional_point (ne : ds ≠ []) (ne' : fs ≠ [])
    (digits : ∀ c ∈ ds ++ fs, c.isDigit = true)
    (hd : ofDigits 10 (ds ++ fs) = d.significand) (he : d.exponent = -fs.length) :
    IsPositional (ds ++ '.' :: fs) d.value := by
  have hvalue : d.value = ofDigits 10 ds + ofDigits 10 fs / 10 ^ fs.length := by
    rw [Decimal.value, ← hd, he, zpow_neg, zpow_natCast, ← div_eq_mul_inv, ofDigits_append_div]
  rw [hvalue]
  exact .point ne (fun c hc ↦ digits c (List.mem_append_left fs hc)) ne'
    fun c hc ↦ digits c (List.mem_append_right ds hc)

theorem IsPositional.scaled (h : IsPositional s v) (e : Int) :
    Denotes (s ++ 'e' :: (if 0 ≤ e then '+' else '-') :: decimalDigits e.natAbs) (v * 10 ^ e) := by
  have hne := decimalDigits_ne_nil e.natAbs
  split
  next he =>
    have := Denotes.up h hne fun c ↦ isDigit_of_mem_decimalDigits
    rwa [ofDigits_decimalDigits, ← zpow_natCast, Int.natAbs_of_nonneg he] at this
  next he =>
    have := Denotes.down h hne fun c ↦ isDigit_of_mem_decimalDigits
    rwa [ofDigits_decimalDigits, ← zpow_natCast, Int.ofNat_natAbs_of_nonpos (by omega), zpow_neg,
      div_inv_eq_mul] at this

namespace Decimal

private theorem isPositional_positional (d : Decimal) : IsPositional d.positional d.value := by
  obtain ⟨n, e⟩ := d
  have hne := decimalDigits_ne_nil n
  have hdigits : ∀ c ∈ decimalDigits n, c.isDigit = true := fun c ↦ isDigit_of_mem_decimalDigits
  have hzero : ∀ c ∈ ['0'], c.isDigit = true := fun c ↦ isDigit_of_mem_zeros (n := 1)
  have hn := ofDigits_decimalDigits n
  simp only [positional, point]
  generalize decimalDigits n = ds at *
  -- the point is behind all digits, or right before them, among them, or farther to the left
  split
  next e =>
    have hvalue : (⟨n, Int.ofNat e⟩ : Decimal).value = ofDigits 10 (ds ++ zeros e) := by
      rw [value, ofDigits_append, ofDigits_zeros, hn, zeros, List.length_replicate]
      push_cast
      exact (add_zero _).symm
    rw [hvalue]
    exact .whole (List.append_ne_nil_of_left_ne_nil hne _)
      (isDigit_of_mem_append hdigits fun c ↦ isDigit_of_mem_zeros)
  next e =>
    split
    next hp =>
      refine isPositional_point (List.cons_ne_nil '0' []) hne ?_ ?_ ?_
      · exact isDigit_of_mem_append hzero hdigits
      · exact (ofDigits_zeros_append 10 1 ds).trans hn
      · show Int.negSucc e = _
        rw [Int.ofNat_eq_natCast] at hp
        omega
    next p hne' hp =>
      have hlen : 0 < ds.length := List.length_pos_iff.mpr hne
      rw [Int.ofNat_eq_natCast] at hp
      refine isPositional_point ?_ ?_ ?_ ?_ ?_
      · refine List.ne_nil_of_length_pos ?_
        rw [List.length_take]
        have : p ≠ 0 := hne'
        omega
      · refine List.ne_nil_of_length_pos ?_
        rw [List.length_drop]
        omega
      · rwa [List.take_append_drop]
      · rwa [List.take_append_drop]
      · show Int.negSucc e = _
        rw [List.length_drop]
        omega
    next z hp =>
      refine isPositional_point (List.cons_ne_nil '0' [])
        (List.append_ne_nil_of_right_ne_nil _ hne) ?_ ?_ ?_
      · exact isDigit_of_mem_append hzero
          (isDigit_of_mem_append (fun c ↦ isDigit_of_mem_zeros) hdigits)
      · exact (ofDigits_zeros_append 10 1 _).trans ((ofDigits_zeros_append 10 _ ds).trans hn)
      · show Int.negSucc e = _
        rw [List.length_append, zeros, List.length_replicate]
        omega

theorem exists_scientific_eq {c : Char} {cs : List Char}
    (hcs : decimalDigits d.significand = c :: cs) :
    ∃ mantissa, IsPositional mantissa (⟨d.significand, -cs.length⟩ : Decimal).value ∧
      d.scientific = mantissa ++ 'e' :: (if 0 ≤ d.point - 1 then '+' else '-') ::
        decimalDigits (d.point - 1).natAbs := by
  have hn := ofDigits_decimalDigits d.significand
  have hdigits : ∀ c ∈ decimalDigits d.significand, c.isDigit = true :=
    fun c ↦ isDigit_of_mem_decimalDigits
  rw [hcs] at hn hdigits
  rcases cs with _ | ⟨c', cs⟩
  · refine ⟨[c], ?_, by rw [scientific, hcs]⟩
    have hvalue : (⟨d.significand, -([] : List Char).length⟩ : Decimal).value =
        ofDigits 10 [c] := by
      rw [value, hn, List.length_nil, Nat.cast_zero, neg_zero, zpow_zero, mul_one]
    rw [hvalue]
    exact .whole (List.cons_ne_nil _ _) hdigits
  · refine ⟨c :: '.' :: c' :: cs, ?_, by rw [scientific, hcs]⟩
    exact isPositional_point (List.cons_ne_nil c []) (List.cons_ne_nil _ _) hdigits hn rfl

private theorem denotes_scientific (d : Decimal) : Denotes d.scientific d.value := by
  obtain ⟨c, cs, hcs, -⟩ := exists_decimalDigits_eq_cons d.significand
  obtain ⟨mantissa, hmantissa, hscientific⟩ := exists_scientific_eq hcs
  have hvalue : d.value =
      (⟨d.significand, -cs.length⟩ : Decimal).value * 10 ^ (d.point - 1) := by
    rw [value, value, mul_assoc, ← zpow_add₀ (by norm_num), point, hcs, List.length_cons]
    congr 2
    push_cast
    ring
  rw [hvalue, hscientific]
  exact hmantissa.scaled _

/-- **The text of a decimal denotes its value**, whichever layout it has. -/
theorem denotes_text (d : Decimal) : Denotes d.text d.value := by
  rw [text]
  split
  · exact .positional d.isPositional_positional
  · exact d.denotes_scientific

end Decimal

/-! ## Scanning -/

theorem IsPositional.isMantissa (h : IsPositional s v) : IsMantissa s v := by
  cases h with
  | whole ne digits => exact .whole ne digits
  | point ne digits _ digits' => exact .point (.inl ne) digits digits'

theorem Denotes.isDecimal (h : Denotes s v) : IsDecimal s v := by
  cases h with
  | positional h =>
    have := IsDecimal.mk h.isMantissa .none
    rwa [List.append_nil, zpow_zero, mul_one] at this
  | up h ne digits =>
    have := IsDecimal.mk h.isMantissa (.marked (.inl rfl) .plus ne digits)
    rwa [if_neg Bool.false_ne_true, zpow_natCast] at this
  | down h ne digits =>
    have := IsDecimal.mk h.isMantissa (.marked (.inl rfl) .minus ne digits)
    rwa [if_pos rfl, zpow_neg, zpow_natCast, ← div_eq_mul_inv] at this

/-- **What a text denotes is read back**, and nothing of the text is left. -/
theorem Denotes.exists_scan (h : Denotes s v) :
    ∃ d, Decimal.scan s = some (d, []) ∧ d.value = v := h.isDecimal.exists_scan

/-! ## The characters of a written number -/

def isNumberChar (c : Char) : Bool := c.isDigit || c == '.' || c == 'e' || c == '+' || c == '-'

theorem isNumberChar_of_isDigit {c : Char} (h : c.isDigit = true) : isNumberChar c = true := by
  rw [isNumberChar, h]
  rfl

theorem isBlank_of_isNumberChar {c : Char} (h : isNumberChar c = true) :
    Text.isBlank c = false := by
  simp only [isNumberChar, Bool.or_eq_true, beq_iff_eq] at h
  rcases h with (((h | rfl) | rfl) | rfl) | rfl
  · have := Text.isDigit_iff.mp h
    simp only [Text.isBlank, Bool.or_eq_false_iff, beq_eq_false_iff_ne, Bool.and_eq_false_iff,
      decide_eq_false_iff_not]
    omega
  all_goals decide

theorem IsPositional.forall_isNumberChar (h : IsPositional s v) :
    ∀ c ∈ s, isNumberChar c = true := by
  cases h with
  | whole ne digits => exact fun c hc ↦ isNumberChar_of_isDigit (digits c hc)
  | point ne digits ne' digits' =>
    intro c hc
    rcases List.mem_append.mp hc with hc | hc
    · exact isNumberChar_of_isDigit (digits c hc)
    · rcases List.mem_cons.mp hc with rfl | hc
      · rfl
      · exact isNumberChar_of_isDigit (digits' c hc)

theorem Denotes.forall_isNumberChar (h : Denotes s v) : ∀ c ∈ s, isNumberChar c = true := by
  have hexponent {s es : List Char} {v : Rat} {sign : Char} (h : IsPositional s v)
      (digits : ∀ c ∈ es, c.isDigit = true) (hsign : isNumberChar sign = true) :
      ∀ c ∈ s ++ 'e' :: sign :: es, isNumberChar c = true := by
    intro c hc
    simp only [List.mem_append, List.mem_cons] at hc
    rcases hc with hc | rfl | rfl | hc
    · exact h.forall_isNumberChar c hc
    · rfl
    · exact hsign
    · exact isNumberChar_of_isDigit (digits c hc)
  cases h with
  | positional h => exact h.forall_isNumberChar
  | up h ne digits => exact hexponent h digits rfl
  | down h ne digits => exact hexponent h digits rfl

theorem IsPositional.exists_eq_cons (h : IsPositional s v) :
    ∃ c t, s = c :: t ∧ c.isDigit = true := by
  have hcons {ds : List Char} (ne : ds ≠ []) (digits : ∀ c ∈ ds, c.isDigit = true)
      (t : List Char) : ∃ c u, ds ++ t = c :: u ∧ c.isDigit = true := by
    obtain ⟨c, ds, rfl⟩ := List.exists_cons_of_ne_nil ne
    exact ⟨c, ds ++ t, rfl, digits c List.mem_cons_self⟩
  cases h with
  | whole ne digits => exact List.append_nil s ▸ hcons ne digits []
  | point ne digits ne' digits' => exact hcons ne digits _

theorem Denotes.exists_eq_cons (h : Denotes s v) : ∃ c t, s = c :: t ∧ c.isDigit = true := by
  have happend {s : List Char} {v : Rat} (h : IsPositional s v) (t : List Char) :
      ∃ c u, s ++ t = c :: u ∧ c.isDigit = true := by
    obtain ⟨c, s, rfl, hc⟩ := h.exists_eq_cons
    exact ⟨c, s ++ t, rfl, hc⟩
  cases h with
  | positional h => exact h.exists_eq_cons
  | up h ne digits => exact happend h _
  | down h ne digits => exact happend h _

end HtmlTemplate.Number

import HtmlTemplate.Proofs.Number.Digits
import HtmlTemplate.Proofs.Value.UriCoding

/-!
# Escapes of units read back

The units of a text are read back as the text, since a character of the basic plane is no surrogate
and the two units of any other character are joined again (`ofUnits_units`). Each unit is written in
one of three forms, and each form is read as that unit whatever follows
(`unescapedUnits_escapeUnit`): a character that stands for itself is no percent sign, and the two
digits of a short escape do not begin with the mark of a long one. So the units of the whole text
come back, no pair of surrogates is torn, and the text is what they are the units of.

## Three forms

A unit is kept as a character if that is one of those that stand for themselves, is written with two
digits if it is below 256, and with four digits otherwise. A reader sees the percent sign first and
then whether the mark of a long escape follows. So the forms can be told apart by their first two
characters.
-/

namespace HtmlTemplate.Text

open Number (digitValue isHexDigit ofDigits)

variable {c : Char} {u n : Nat} {s t : List Char}

/-! ## Units

A character of the basic plane is one unit, and every other one is two, of which the first is a high
surrogate and the second a low one. -/

theorem toNat_scalar (c : Char) :
    c.toNat < 0xd800 ∨ 0xdfff < c.toNat ∧ c.toNat < 0x110000 := c.valid

private theorem not_surrogate (c : Char) :
    isHighSurrogate c.toNat = false ∧ isLowSurrogate c.toNat = false := by
  have hscalar := toNat_scalar c
  simp only [isHighSurrogate, isLowSurrogate, Bool.and_eq_false_iff, decide_eq_false_iff_not]
  omega

private theorem ofUnits_cons (hhigh : isHighSurrogate u = false) (hlow : isLowSurrogate u = false)
    (us : List Nat) : ofUnits (u :: us) = Char.ofNat u :: ofUnits us := by
  rcases us with _ | ⟨v, us⟩
  · show [if isHighSurrogate u || isLowSurrogate u then '\ufffd' else Char.ofNat u] = _
    rw [hhigh, hlow]
    rfl
  · rw [ofUnits, hhigh, hlow]
    rfl

theorem unitsOf_of_lt (h : c.toNat < 0x10000) : unitsOf c = [c.toNat] := if_pos h

theorem ofUnits_unitsOf_append (c : Char) (us : List Nat) :
    ofUnits (unitsOf c ++ us) = c :: ofUnits us := by
  have hscalar := toNat_scalar c
  by_cases h : c.toNat < 0x10000
  · obtain ⟨hhigh, hlow⟩ := not_surrogate c
    rw [unitsOf_of_lt h, List.singleton_append, ofUnits_cons hhigh hlow, Char.ofNat_toNat]
  · have hpair : unitsOf c = [0xd800 + (c.toNat - 0x10000) / 0x400,
        0xdc00 + (c.toNat - 0x10000) % 0x400] := if_neg h
    have hhigh : isHighSurrogate (0xd800 + (c.toNat - 0x10000) / 0x400) = true := by
      simp only [isHighSurrogate, Bool.and_eq_true, decide_eq_true_eq]
      omega
    have hlow : isLowSurrogate (0xdc00 + (c.toNat - 0x10000) % 0x400) = true := by
      simp only [isLowSurrogate, Bool.and_eq_true, decide_eq_true_eq]
      omega
    have hjoin : joinSurrogates (0xd800 + (c.toNat - 0x10000) / 0x400)
        (0xdc00 + (c.toNat - 0x10000) % 0x400) = c := by
      have hvalue : 0x10000 + (0xd800 + (c.toNat - 0x10000) / 0x400 - 0xd800) * 0x400 +
          (0xdc00 + (c.toNat - 0x10000) % 0x400 - 0xdc00) = c.toNat := by omega
      rw [joinSurrogates, hvalue, Char.ofNat_toNat]
    rw [hpair, List.cons_append, List.singleton_append, ofUnits, if_pos hhigh, if_pos hlow, hjoin]

/-- **The units of a text are read back as the text.** -/
theorem ofUnits_units (s : List Char) : ofUnits (units s) = s := by
  induction s with
  | nil => rfl
  | cons c s ih =>
    have hcons : units (c :: s) = unitsOf c ++ units s := List.flatMap_cons
    rw [hcons, ofUnits_unitsOf_append, ih]

theorem lt_of_mem_units (h : u ∈ units s) : u < 0x10000 := by
  obtain ⟨c, -, hu⟩ := List.mem_flatMap.mp h
  have hscalar := toNat_scalar c
  rw [unitsOf] at hu
  split at hu
  · rw [List.mem_singleton.mp hu]
    assumption
  · simp only [List.mem_cons, List.not_mem_nil, or_false] at hu
    omega

/-! ## Digits -/

theorem isHexDigit_hexDigit (h : n < 16) : isHexDigit (hexDigit n) = true := by
  rw [isHexDigit, Number.isDigitOf, (digitValue_hexDigit n h).1]
  exact decide_eq_true h

private theorem hexDigit_ne (h : n < 16) : hexDigit n ≠ 'u' := by
  intro heq
  have hdigit := isHexDigit_hexDigit h
  rw [heq] at hdigit
  exact absurd hdigit (by decide)

theorem isHexDigit_of_mem_hexPair (h : n < 256) (hc : c ∈ hexPair n) : isHexDigit c = true := by
  simp only [hexPair, List.mem_cons, List.not_mem_nil, or_false] at hc
  rcases hc with rfl | rfl <;> exact isHexDigit_hexDigit (by omega)

theorem ofDigits_hexPair (h : n < 256) : ofDigits 16 (hexPair n) = n := by
  have hhigh := (digitValue_hexDigit (n / 16) (by omega)).1
  have hlow := (digitValue_hexDigit (n % 16) (by omega)).1
  rw [hexPair, ← List.singleton_append, Number.ofDigits_append, Number.ofDigits_singleton,
    Number.ofDigits_singleton, hhigh, hlow, List.length_singleton, Nat.pow_one, Nat.div_add_mod']

/-! ## The two forms of an escape -/

theorem unitInFront?_hexPair (hu : u < 256) (s : List Char) :
    unitInFront? (hexPair u ++ s) = some (u, s) := by
  have hne := hexDigit_ne (n := u / 16) (by omega)
  have hhex := fun c ↦ isHexDigit_of_mem_hexPair (c := c) hu
  have hvalue := ofDigits_hexPair hu
  rw [hexPair] at hhex hvalue ⊢
  rw [List.cons_append, List.singleton_append]
  unfold unitInFront?
  split
  · rename_i heq
    exact absurd (List.cons.inj heq).1 hne
  · rename_i heq
    cases heq
    rw [hhex _ (by simp), hhex _ (by simp), hvalue]
    rfl
  · rename_i hno
    exact absurd rfl (hno _ _ _)

private theorem unitInFront?_long (hu : u < 0x10000) (s : List Char) :
    unitInFront? ('u' :: (hexPair (u / 256) ++ hexPair (u % 256)) ++ s) = some (u, s) := by
  have hhigh : u / 256 < 256 := by omega
  have hlow : u % 256 < 256 := Nat.mod_lt u (by decide)
  have hall : (hexPair (u / 256) ++ hexPair (u % 256)).all isHexDigit = true := by
    rw [List.all_append, Bool.and_eq_true, List.all_eq_true, List.all_eq_true]
    exact ⟨fun c ↦ isHexDigit_of_mem_hexPair hhigh, fun c ↦ isHexDigit_of_mem_hexPair hlow⟩
  have hvalue : ofDigits 16 (hexPair (u / 256) ++ hexPair (u % 256)) = u := by
    rw [Number.ofDigits_append, ofDigits_hexPair hhigh, ofDigits_hexPair hlow]
    exact Nat.div_add_mod' u 256
  show (if (hexPair (u / 256) ++ hexPair (u % 256)).all isHexDigit then
    some (ofDigits 16 (hexPair (u / 256) ++ hexPair (u % 256)), s) else none) = _
  rw [if_pos hall, hvalue]

private theorem unescapedUnits_percent (h : unitInFront? t = some (u, s)) :
    unescapedUnits ('%' :: t) = u :: unescapedUnits s := by
  rw [unescapedUnits]
  split
  · rename_i heq
    rw [if_pos rfl, h] at heq
    cases heq
    rfl
  · rename_i heq
    rw [if_pos rfl, h] at heq
    cases heq

private theorem unescapedUnits_cons_of_ne (hc : c ≠ '%') (t : List Char) :
    unescapedUnits (c :: t) = unitsOf c ++ unescapedUnits t := by
  rw [unescapedUnits]
  split
  · rename_i heq
    rw [if_neg hc] at heq
    cases heq
  · rfl

/-- **The form of a unit is read as the unit**, whatever follows. -/
theorem unescapedUnits_escapeUnit (hu : u < 0x10000) (s : List Char) :
    unescapedUnits (escapeUnit u ++ s) = u :: unescapedUnits s := by
  rw [escapeUnit]
  split_ifs with hkeep hshort
  · rw [Bool.and_eq_true, decide_eq_true_eq] at hkeep
    have htoNat : (Char.ofNat u).toNat = u := by
      rw [Char.ofNat, dif_pos (Or.inl (by omega))]
      rfl
    have hne : Char.ofNat u ≠ '%' := by
      intro heq
      rw [heq] at hkeep
      exact absurd hkeep.2 (by decide)
    rw [List.singleton_append, unescapedUnits_cons_of_ne hne, unitsOf_of_lt (htoNat.symm ▸ hu),
      htoNat, List.singleton_append]
  · exact unescapedUnits_percent (unitInFront?_hexPair hshort s)
  · exact unescapedUnits_percent (unitInFront?_long hu s)

private theorem unescapedUnits_flatMap {us : List Nat} (h : ∀ u ∈ us, u < 0x10000) :
    unescapedUnits (us.flatMap escapeUnit) = us := by
  induction us with
  | nil => rw [List.flatMap_nil, unescapedUnits]
  | cons u us ih =>
    rw [List.flatMap_cons, unescapedUnits_escapeUnit (h u List.mem_cons_self),
      ih fun v hv ↦ h v (List.mem_cons_of_mem u hv)]

/-- **What was escaped is read back**, unit by unit. -/
theorem unescape_escape (s : List Char) : unescape (escape s) = s := by
  rw [unescape, escape, unescapedUnits_flatMap fun _ ↦ lt_of_mem_units, ofUnits_units]

end HtmlTemplate.Text

namespace HtmlTemplate.Builtin

/-- **Unescaping undoes escaping**: every text has an escaped form, and unescaping that form gives
the text back. -/
theorem call_unescape_of_escape (s : String) : ∃ t, escape.call [.string s] = .ok (.string t) ∧
    unescape.call [.string t] = .ok (.string s) := by
  have hunescape (t : String) :
      unescape.call [.string t] = .ok (.string (String.ofList (Text.unescape t.toList))) := rfl
  refine ⟨String.ofList (Text.escape s.toList), rfl, (hunescape _).trans ?_⟩
  rw [String.toList_ofList, Text.unescape_escape, String.ofList_toList]

end HtmlTemplate.Builtin

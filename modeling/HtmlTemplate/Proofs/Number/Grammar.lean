import HtmlTemplate.Proofs.Number.Digits
import HtmlTemplate.Proofs.Number.Scientific
import HtmlTemplate.Proofs.Text.Scanning

/-!
# The grammar of decimals

A decimal is digits with an optional point, which may begin or end them, and an exponent, which is
there as a whole or not at all (`IsDecimal`). What a text denotes is said on the text alone, by
exact rational values.

The scanner reads a decimal in front of a text (`exists_isDecimal`) and nowhere stops before the end
of one (`IsDecimal.exists_scan_append`), so what it reads is the longest. A decimal that nothing
follows is read to its end, as one of the value that it denotes (`IsDecimal.exists_scan`).

## Exact values

The value of a decimal is a rational number, in which nothing is rounded. A point divides the digits
behind it by a power of ten, and an exponent moves it further; that these are added up is all that
relates the text to the significand and the exponent of what is scanned.
-/

namespace HtmlTemplate.Number

variable {s t ds fs es : List Char} {v : Rat} {e : Int} {d : Decimal} {negative : Bool}

/-! ## Written decimals -/

/-- An optional sign: is it a minus? -/
inductive IsSign : List Char → Bool → Prop
  | none : IsSign [] false
  | plus : IsSign ['+'] false
  | minus : IsSign ['-'] true

/-- Digits with an optional point, and their value. The point may stand in front of all digits, and
behind all of them. -/
inductive IsMantissa : List Char → Rat → Prop
  | whole {ds : List Char} (ne : ds ≠ []) (digits : ∀ c ∈ ds, c.isDigit = true) :
    IsMantissa ds (ofDigits 10 ds)
  | point {ds fs : List Char} (ne : ds ≠ [] ∨ fs ≠ []) (digits : ∀ c ∈ ds, c.isDigit = true)
    (digits' : ∀ c ∈ fs, c.isDigit = true) :
    IsMantissa (ds ++ '.' :: fs) (ofDigits 10 ds + ofDigits 10 fs / 10 ^ fs.length)

/-- An optional exponent and its value. -/
inductive IsExponent : List Char → Int → Prop
  | none : IsExponent [] 0
  | marked {mark : Char} {sign es : List Char} {negative : Bool} (hmark : mark = 'e' ∨ mark = 'E')
    (hsign : IsSign sign negative) (ne : es ≠ []) (digits : ∀ c ∈ es, c.isDigit = true) :
    IsExponent (mark :: (sign ++ es))
      (if negative then -(ofDigits 10 es : Int) else ofDigits 10 es)

/-- A decimal without a sign, and its value. -/
inductive IsDecimal : List Char → Rat → Prop
  | mk {s t : List Char} {v : Rat} {e : Int} (hs : IsMantissa s v) (ht : IsExponent t e) :
    IsDecimal (s ++ t) (v * 10 ^ e)

/-! ## Digits

A run of digits is read as far as it goes, so what stands behind it does not begin with a digit. -/

theorem scanDigits_append_of_digits (hds : ∀ c ∈ ds, c.isDigit = true) (t : List Char) :
    Decimal.scanDigits (ds ++ t) = (ds ++ (Decimal.scanDigits t).1, (Decimal.scanDigits t).2) := by
  rw [Decimal.scanDigits, List.takeWhile_append_of_pos hds, List.dropWhile_append_of_pos hds]
  rfl

theorem scanDigits_of_head (ht : ∀ c ∈ t.head?, c.isDigit = false) :
    Decimal.scanDigits t = ([], t) := by
  rcases t with _ | ⟨c, t⟩
  · rfl
  · have hc : c.isDigit = false := ht c rfl
    rw [Decimal.scanDigits, List.takeWhile_cons_of_neg (by simp [hc]),
      List.dropWhile_cons_of_neg (by simp [hc])]

theorem scanDigits_append (hds : ∀ c ∈ ds, c.isDigit = true)
    (ht : ∀ c ∈ t.head?, c.isDigit = false) : Decimal.scanDigits (ds ++ t) = (ds, t) := by
  rw [scanDigits_append_of_digits hds, scanDigits_of_head ht, List.append_nil]

theorem scanDigits_append_point (hds : ∀ c ∈ ds, c.isDigit = true) (t : List Char) :
    Decimal.scanDigits (ds ++ '.' :: t) = (ds, '.' :: t) :=
  scanDigits_append hds (by rintro _ ⟨⟩; rfl)

theorem isDigit_of_mem_scanDigits {c : Char} (h : c ∈ (Decimal.scanDigits s).1) :
    c.isDigit = true := List.mem_takeWhile_imp h

theorem append_scanDigits (s : List Char) :
    (Decimal.scanDigits s).1 ++ (Decimal.scanDigits s).2 = s := List.takeWhile_append_dropWhile

/-! ## Signs -/

theorem IsSign.scanSign_append (h : IsSign s negative) (ht : ∀ c ∈ t.head?, c ≠ '-' ∧ c ≠ '+') :
    Decimal.scanSign (s ++ t) = (negative, t) := by
  cases h with
  | none =>
    rw [List.nil_append]
    unfold Decimal.scanSign
    split
    · exact absurd rfl (ht '-' rfl).1
    · exact absurd rfl (ht '+' rfl).2
    · rfl
  | plus => rfl
  | minus => rfl

theorem exists_isSign (s : List Char) :
    ∃ sign, IsSign sign (Decimal.scanSign s).1 ∧ s = sign ++ (Decimal.scanSign s).2 := by
  unfold Decimal.scanSign
  split
  · exact ⟨['-'], .minus, rfl⟩
  · exact ⟨['+'], .plus, rfl⟩
  · exact ⟨[], .none, rfl⟩

theorem ne_sign_of_isDigit {c : Char} (hc : c.isDigit = true) : c ≠ '-' ∧ c ≠ '+' := by
  constructor <;> (rintro rfl; exact absurd hc (by decide))

theorem scanSign_of_isDigit {c : Char} (hc : c.isDigit = true) (t : List Char) :
    Decimal.scanSign (c :: t) = (false, c :: t) :=
  IsSign.none.scanSign_append (by rintro c ⟨⟩; exact ne_sign_of_isDigit hc)

/-! ## Fractions

A point without digits behind it belongs to the digits in front of it if there are any. -/

theorem scanFraction_of_ne (h : ∀ c ∈ t.head?, c ≠ '.') : Decimal.scanFraction t = ([], t) := by
  unfold Decimal.scanFraction
  split
  · exact absurd rfl (h '.' rfl)
  · rfl

theorem ofDigits_append_div (ds fs : List Char) :
    (ofDigits 10 (ds ++ fs) : Rat) / 10 ^ fs.length =
      ofDigits 10 ds + ofDigits 10 fs / 10 ^ fs.length := by
  rw [ofDigits_append]
  push_cast
  field_simp

/-- What is read up to the exponent is digits with an optional point. -/
theorem exists_isMantissa (h : ¬((Decimal.scanDigits s).1 = [] ∧
      (Decimal.scanFraction (Decimal.scanDigits s).2).1 = [])) :
    ∃ t, IsMantissa t (ofDigits 10
        ((Decimal.scanDigits s).1 ++ (Decimal.scanFraction (Decimal.scanDigits s).2).1) /
          10 ^ (Decimal.scanFraction (Decimal.scanDigits s).2).1.length) ∧
      s = t ++ (Decimal.scanFraction (Decimal.scanDigits s).2).2 := by
  have hs := append_scanDigits s
  have hdigits : ∀ c ∈ (Decimal.scanDigits s).1, c.isDigit = true :=
    fun c ↦ isDigit_of_mem_scanDigits
  rw [ofDigits_append_div]
  generalize (Decimal.scanDigits s).1 = ds at *
  generalize (Decimal.scanDigits s).2 = r at *
  unfold Decimal.scanFraction at h ⊢
  split at h
  next r =>
    refine ⟨ds ++ '.' :: (Decimal.scanDigits r).1, .point (not_and_or.mp h) hdigits
      fun c ↦ isDigit_of_mem_scanDigits, ?_⟩
    rw [List.append_assoc, List.cons_append, append_scanDigits, hs]
  next hno =>
    refine ⟨ds, ?_, hs.symm⟩
    have hwhole := IsMantissa.whole (fun h' ↦ h ⟨h', rfl⟩) hdigits
    simpa [ofDigits] using hwhole

/-! ## Exponents

The mark of an exponent with no digits behind it is left where it is, together with its sign. -/

theorem scanExponent_marked {mark : Char} (hmark : mark = 'e' ∨ mark = 'E')
    (hsign : IsSign s negative) (ne : es ≠ []) (digits : ∀ c ∈ es, c.isDigit = true)
    (t : List Char) :
    Decimal.scanExponent (mark :: (s ++ es) ++ t) =
      (if negative then -(ofDigits 10 (es ++ (Decimal.scanDigits t).1) : Int)
        else ofDigits 10 (es ++ (Decimal.scanDigits t).1), (Decimal.scanDigits t).2) := by
  have hhead : ∀ c ∈ (es ++ t).head?, c ≠ '-' ∧ c ≠ '+' := by
    obtain ⟨c, es, rfl⟩ := List.exists_cons_of_ne_nil ne
    rintro c ⟨⟩
    exact ne_sign_of_isDigit (digits c List.mem_cons_self)
  rw [List.cons_append, List.append_assoc, Decimal.scanExponent, if_pos hmark,
    hsign.scanSign_append hhead]
  dsimp only
  rw [scanDigits_append_of_digits digits]
  dsimp only
  rw [if_neg (by simp [ne])]

theorem IsExponent.scanExponent_eq (h : IsExponent t e) : Decimal.scanExponent t = (e, []) := by
  cases h with
  | none => rfl
  | marked hmark hsign ne digits =>
    have hscan := scanExponent_marked hmark hsign ne digits []
    rw [List.append_nil] at hscan
    rw [hscan, scanDigits_of_head (by rintro c ⟨⟩), List.append_nil]

theorem exists_isExponent (s : List Char) :
    ∃ t, IsExponent t (Decimal.scanExponent s).1 ∧ s = t ++ (Decimal.scanExponent s).2 := by
  unfold Decimal.scanExponent
  split
  · exact ⟨[], .none, rfl⟩
  next c r =>
    split
    next hmark =>
      obtain ⟨sign, hsign, hr⟩ := exists_isSign r
      have happend := append_scanDigits (Decimal.scanSign r).2
      dsimp only
      split
      · exact ⟨[], .none, rfl⟩
      next hne =>
        refine ⟨c :: (sign ++ (Decimal.scanDigits (Decimal.scanSign r).2).1),
          .marked hmark hsign (by simpa using hne) fun c ↦ isDigit_of_mem_scanDigits, ?_⟩
        rw [List.cons_append, List.append_assoc, happend, ← hr]
    · exact ⟨[], .none, rfl⟩

theorem IsExponent.head (h : IsExponent t e) : ∀ c ∈ t.head?, c.isDigit = false ∧ c ≠ '.' := by
  cases h with
  | none => nofun
  | marked hmark =>
    rintro c ⟨⟩
    rcases hmark with rfl | rfl <;> decide

/-! ## Decimals -/

theorem Decimal.scan_eq (s : List Char) :
    Decimal.scan s =
      if (scanDigits s).1.isEmpty && (scanFraction (scanDigits s).2).1.isEmpty then none
      else some (⟨ofDigits 10 ((scanDigits s).1 ++ (scanFraction (scanDigits s).2).1),
          (scanExponent (scanFraction (scanDigits s).2).2).1 -
            (scanFraction (scanDigits s).2).1.length⟩,
        (scanExponent (scanFraction (scanDigits s).2).2).2) := rfl

theorem Decimal.value_sub (n k : Nat) (e : Int) :
    (⟨n, e - k⟩ : Decimal).value = n / 10 ^ k * 10 ^ e := by
  rw [value, zpow_sub₀ (by norm_num), zpow_natCast]
  ring

/-- **What is scanned is a decimal**, of the value that it is scanned with. -/
theorem exists_isDecimal (h : Decimal.scan s = some (d, t)) :
    ∃ u, IsDecimal u d.value ∧ s = u ++ t := by
  rw [Decimal.scan_eq] at h
  split at h
  · cases h
  next hne =>
    cases h
    obtain ⟨m, hm, hs⟩ := exists_isMantissa (s := s) (by simpa using hne)
    obtain ⟨x, hx, hr⟩ := exists_isExponent (Decimal.scanFraction (Decimal.scanDigits s).2).2
    refine ⟨m ++ x, ?_, by rw [List.append_assoc, ← hr, ← hs]⟩
    rw [Decimal.value_sub]
    exact .mk hm hx

theorem IsMantissa.exists_scan (h : IsMantissa s v)
    (ht : ∀ c ∈ t.head?, c.isDigit = false ∧ c ≠ '.') :
    ∃ d, Decimal.scan (s ++ t) = some (d, (Decimal.scanExponent t).2) ∧
      d.value = v * 10 ^ (Decimal.scanExponent t).1 := by
  have hdigit : ∀ c ∈ t.head?, c.isDigit = false := fun c hc ↦ (ht c hc).1
  cases h with
  | whole ne digits =>
    refine ⟨⟨ofDigits 10 s, (Decimal.scanExponent t).1 - (0 : Nat)⟩, ?_, ?_⟩
    · rw [Decimal.scan_eq, scanDigits_append digits hdigit,
        scanFraction_of_ne fun c hc ↦ (ht c hc).2, if_neg (by simpa using ne), List.append_nil]
      rfl
    · rw [Decimal.value_sub, pow_zero, div_one]
  | @point ds fs ne digits digits' =>
    refine ⟨⟨ofDigits 10 (ds ++ fs), (Decimal.scanExponent t).1 - fs.length⟩, ?_, ?_⟩
    · rw [List.append_assoc, List.cons_append, Decimal.scan_eq, scanDigits_append_point digits,
        Decimal.scanFraction, scanDigits_append digits' hdigit,
        if_neg (by simpa using not_and_or.mpr ne)]
    · rw [Decimal.value_sub, ofDigits_append_div]

/-- **A decimal is read to its end**, and its value is the one that it denotes. -/
theorem IsDecimal.exists_scan (h : IsDecimal s v) :
    ∃ d, Decimal.scan s = some (d, []) ∧ d.value = v := by
  obtain ⟨hs, ht⟩ := h
  obtain ⟨d, hscan, hvalue⟩ := hs.exists_scan ht.head
  rw [ht.scanExponent_eq] at hscan hvalue
  exact ⟨d, hscan, hvalue⟩

theorem isDecimal_iff_exists_scan :
    IsDecimal s v ↔ ∃ d, Decimal.scan s = some (d, []) ∧ d.value = v := by
  refine ⟨IsDecimal.exists_scan, ?_⟩
  rintro ⟨d, hscan, rfl⟩
  obtain ⟨u, hu, rfl⟩ := exists_isDecimal hscan
  rwa [List.append_nil]

theorem IsMantissa.exists_scan_append (h : IsMantissa s v) (t : List Char) :
    ∃ d r, Decimal.scan (s ++ t) = some (d, r) ∧ r.length ≤ t.length := by
  have hlength (u : List Char) : (Decimal.scanExponent (Decimal.scanFraction u).2).2.length ≤
      u.length := by
    have := Decimal.length_scanFraction u
    have := Decimal.length_scanExponent (Decimal.scanFraction u).2
    omega
  have hdigits := Decimal.length_scanDigits t
  cases h with
  | whole ne digits =>
    rw [Decimal.scan_eq, scanDigits_append_of_digits digits, if_neg (by simp [ne])]
    refine ⟨_, _, rfl, (hlength _).trans ?_⟩
    dsimp only
    omega
  | @point ds fs ne digits digits' =>
    have hexponent := Decimal.length_scanExponent (Decimal.scanDigits t).2
    rw [List.append_assoc, List.cons_append, Decimal.scan_eq, scanDigits_append_point digits,
      Decimal.scanFraction, scanDigits_append_of_digits digits', if_neg (by simp; tauto)]
    refine ⟨_, _, rfl, ?_⟩
    dsimp only
    omega

/-- **The scanner stops before the end of no decimal**, whatever follows. -/
theorem IsDecimal.exists_scan_append (h : IsDecimal s v) (t : List Char) :
    ∃ d r, Decimal.scan (s ++ t) = some (d, r) ∧ r.length ≤ t.length := by
  obtain ⟨hs, ht⟩ := h
  cases ht with
  | none =>
    rw [List.append_nil]
    exact hs.exists_scan_append t
  | @marked mark sign es _ hmark hsign ne digits =>
    have hhead : ∀ c ∈ (mark :: (sign ++ es) ++ t).head?, c.isDigit = false ∧ c ≠ '.' := by
      rintro c ⟨⟩
      exact (IsExponent.marked hmark hsign ne digits).head _ rfl
    obtain ⟨d, hscan, -⟩ := hs.exists_scan hhead
    have hdigits := Decimal.length_scanDigits t
    rw [scanExponent_marked hmark hsign ne digits] at hscan
    refine ⟨d, _, by rw [List.append_assoc, hscan], ?_⟩
    dsimp only
    omega

theorem IsDecimal.exists_eq_cons (h : IsDecimal s v) :
    ∃ c t, s = c :: t ∧ (c.isDigit = true ∨ c = '.') := by
  obtain ⟨hs, -⟩ := h
  cases hs with
  | whole ne digits =>
    obtain ⟨c, ds, rfl⟩ := List.exists_cons_of_ne_nil ne
    exact ⟨c, _, rfl, .inl (digits c List.mem_cons_self)⟩
  | @point ds fs _ digits _ =>
    rcases ds with _ | ⟨c, ds⟩
    · exact ⟨'.', _, rfl, .inr rfl⟩
    · exact ⟨c, _, rfl, .inl (digits c List.mem_cons_self)⟩

end HtmlTemplate.Number

import HtmlTemplate.Proofs.Value.UriCoding

/-!
# Which texts percent decoding accepts

What the escapes of a text stand for is a relation between the text and its bytes (`Unescapes`). It
is a partial function, defined exactly where a pair of characters that stands for a byte is behind
every percent sign (`exists_unescapes_iff`). Decoding is that relation followed by the reading of
UTF-8 (`decodeUri?_eq_some_iff`).

## Pairs

Two hexadecimal digits stand for a byte, and so does a plus with one hexadecimal digit. A text in
which no plus is behind a percent sign has escapes of the first kind only
(`unescapes_iff_of_plusless`).

## From bytes to text

The escapes of a text give bytes, whatever these are, and a text without its escapes is put into
UTF-8 for this. So decoding can fail in two ways: the text has no bytes, or the bytes are no text in
UTF-8. Both are failures of the same kind.
-/

namespace HtmlTemplate.Text

open Number (digitValue isHexDigit)

variable {pair : Char → Char → Nat → Prop} {keep : List Char} {s : List Char}
  {bytes : List UInt8} {a b : Char} {n : Nat}

/-! ## Pairs -/

/-- Two hexadecimal digits and the byte that they write. -/
def IsHexPair (a b : Char) (n : Nat) : Prop :=
  isHexDigit a = true ∧ isHexDigit b = true ∧ n = digitValue a * 16 + digitValue b

def IsPlusPair (a b : Char) (n : Nat) : Prop := a = '+' ∧ isHexDigit b = true ∧ n = digitValue b

/-- The two characters that decoding takes for a byte. -/
def IsBytePair (a b : Char) (n : Nat) : Prop := IsHexPair a b n ∨ IsPlusPair a b n

theorem pairValue?_eq_some_iff : pairValue? a b = some n ↔ IsBytePair a b n := by
  rw [pairValue?, IsBytePair, IsHexPair, IsPlusPair]
  by_cases ha : a = '+'
  · subst ha
    have hplus : isHexDigit '+' = false := by decide
    simp only [hplus, decide_true, Bool.true_and, if_true, false_and, false_or, true_and,
      Bool.false_eq_true, Option.ite_none_right_eq_some, Option.some.injEq, @eq_comm _ n,
      Bool.true_or]
  · simp only [ha, false_and, or_false, decide_false, Bool.false_or, if_false, Bool.and_eq_true,
      Option.ite_none_right_eq_some, Option.some.injEq, and_assoc, @eq_comm _ n]

theorem IsBytePair.ne_percent (h : IsBytePair a b n) : a ≠ '%' ∧ b ≠ '%' := by
  have hpercent : isHexDigit '%' = false := by decide
  have hne {c : Char} (hc : isHexDigit c = true) : c ≠ '%' := by
    rintro rfl
    exact Bool.false_ne_true (hpercent.symm.trans hc)
  rcases h with ⟨ha, hb, -⟩ | ⟨rfl, hb, -⟩
  · exact ⟨hne ha, hne hb⟩
  · exact ⟨by decide, hne hb⟩

/-! ## Escapes -/

/-- What an escape comes to: itself if it is of a character in `keep`, or else its byte. -/
def escapeBytes (keep : List Char) (a b : Char) (n : Nat) : List UInt8 :=
  if n < 128 ∧ Char.ofNat n ∈ keep then utf8 ['%', a, b] else [UInt8.ofNat n]

/-- The bytes of a text: escapes are replaced as `escapeBytes` says, and every other character by
its UTF-8. -/
inductive Unescapes (pair : Char → Char → Nat → Prop) (keep : List Char) :
    List Char → List UInt8 → Prop
  | nil : Unescapes pair keep [] []
  | char {c : Char} {s : List Char} {bytes : List UInt8} (hc : c ≠ '%')
    (h : Unescapes pair keep s bytes) :
    Unescapes pair keep (c :: s) (String.utf8EncodeChar c ++ bytes)
  | escape {a b : Char} {n : Nat} {s : List Char} {bytes : List UInt8} (hpair : pair a b n)
    (h : Unescapes pair keep s bytes) :
    Unescapes pair keep ('%' :: a :: b :: s) (escapeBytes keep a b n ++ bytes)

/-- A pair is behind every percent sign. No percent sign is part of an escape that begins before it,
since none stands in a pair. -/
def IsWellEscaped (pair : Char → Char → Nat → Prop) (s : List Char) : Prop :=
  ∀ t, '%' :: t <:+ s → ∃ a b r n, t = a :: b :: r ∧ pair a b n

theorem IsWellEscaped.of_suffix {t : List Char} (h : IsWellEscaped pair s) (ht : t <:+ s) :
    IsWellEscaped pair t := fun r hr ↦ h r (hr.trans ht)

theorem Unescapes.isWellEscaped (hpair : ∀ a b n, pair a b n → a ≠ '%' ∧ b ≠ '%')
    (h : Unescapes pair keep s bytes) : IsWellEscaped pair s := by
  induction h with
  | nil => exact fun t ht ↦ absurd (List.suffix_nil.mp ht) (List.cons_ne_nil _ _)
  | char hc h ih =>
    intro t ht
    rcases List.suffix_cons_iff.mp ht with heq | ht
    · exact absurd (List.cons.inj heq).1.symm hc
    · exact ih t ht
  | @escape a b n s bytes hp h ih =>
    intro t ht
    obtain ⟨ha, hb⟩ := hpair a b n hp
    rcases List.suffix_cons_iff.mp ht with heq | ht
    · exact ⟨a, b, s, n, (List.cons.inj heq).2, hp⟩
    rcases List.suffix_cons_iff.mp ht with heq | ht
    · exact absurd (List.cons.inj heq).1.symm ha
    rcases List.suffix_cons_iff.mp ht with heq | ht
    · exact absurd (List.cons.inj heq).1.symm hb
    · exact ih t ht

theorem IsWellEscaped.exists_unescapes (h : IsWellEscaped pair s) :
    ∃ bytes, Unescapes pair keep s bytes := by
  fun_induction unescapedBytes keep s with
  | case1 => exact ⟨[], .nil⟩
  | case2 a b s ih =>
    obtain ⟨a', b', r, n, heq, hpair⟩ := h _ (List.suffix_refl _)
    cases heq
    obtain ⟨bytes, hbytes⟩ := ih (h.of_suffix (List.suffix_append ['%', a, b] s))
    exact ⟨_, .escape hpair hbytes⟩
  | case3 s hshort =>
    obtain ⟨a, b, r, n, heq, -⟩ := h _ (List.suffix_refl _)
    exact absurd heq (hshort a b r)
  | case4 c s hc ih =>
    obtain ⟨bytes, hbytes⟩ := ih (h.of_suffix (List.suffix_cons c s))
    exact ⟨_, .char hc hbytes⟩

/-- **A text has bytes exactly if a pair is behind every percent sign.** -/
theorem exists_unescapes_iff (hpair : ∀ a b n, pair a b n → a ≠ '%' ∧ b ≠ '%') :
    (∃ bytes, Unescapes pair keep s bytes) ↔ IsWellEscaped pair s :=
  ⟨fun ⟨_, h⟩ ↦ h.isWellEscaped hpair, fun h ↦ h.exists_unescapes⟩

/-! ## Decoding -/

theorem unescapedBytes_pair (a b : Char) (s : List Char) :
    unescapedBytes keep ('%' :: a :: b :: s) = (pairValue? a b).bind fun n ↦
      (unescapedBytes keep s).map (escapeBytes keep a b n ++ ·) := by
  rw [unescapedBytes, if_pos rfl]
  cases pairValue? a b with
  | none => rfl
  | some n =>
    cases unescapedBytes keep s with
    | none => rfl
    | some bytes =>
      simp only [Option.bind_eq_bind, Option.bind_some, Option.map_some, escapeBytes,
        Bool.and_eq_true, decide_eq_true_eq, List.contains_iff_mem]
      split <;> rfl

private theorem unescapes_of_unescapedBytes (h : unescapedBytes keep s = some bytes) :
    Unescapes IsBytePair keep s bytes := by
  induction s using unescapedBytes.induct generalizing bytes with
  | case1 =>
    cases h
    exact .nil
  | case2 a b s ih =>
    rw [unescapedBytes_pair] at h
    obtain ⟨n, hn, h⟩ := Option.bind_eq_some_iff.mp h
    obtain ⟨bytes, hbytes, rfl⟩ := Option.map_eq_some_iff.mp h
    exact .escape (pairValue?_eq_some_iff.mp hn) (ih hbytes)
  | case3 s hshort =>
    rw [unescapedBytes.eq_def] at h
    simp only [if_true] at h
    cases h
  | case4 c s hc ih =>
    rw [unescapedBytes_cons_of_ne s hc] at h
    obtain ⟨bytes, hbytes, rfl⟩ := Option.map_eq_some_iff.mp h
    exact .char hc (ih hbytes)

theorem Unescapes.unescapedBytes_eq (h : Unescapes IsBytePair keep s bytes) :
    unescapedBytes keep s = some bytes := by
  induction h with
  | nil => rfl
  | char hc h ih => rw [unescapedBytes_cons_of_ne _ hc, ih, Option.map_some]
  | escape hpair h ih =>
    rw [unescapedBytes_pair, pairValue?_eq_some_iff.mpr hpair, Option.bind_some, ih,
      Option.map_some]

theorem ofUtf8?_eq_some_iff {t : String} : ofUtf8? bytes = some t ↔ bytes = utf8 t.toList := by
  constructor
  · intro h
    rw [ofUtf8?, String.fromUTF8?] at h
    split at h
    · cases h
      have hbytes := toArray_utf8 (String.fromUTF8 ⟨bytes.toArray⟩ ‹_›).toList
      rw [String.utf8Encode_toList] at hbytes
      exact (List.toArray_inj (congrArg ByteArray.data hbytes)).symm
    · cases h
  · rintro rfl
    rw [ofUtf8?_utf8, String.ofList_toList]

/-- **Decoding gives the text that the bytes are.** -/
theorem decodeUri?_eq_some_iff {t : String} :
    decodeUri? keep s = some t ↔ Unescapes IsBytePair keep s (utf8 t.toList) := by
  rw [decodeUri?, Option.bind_eq_some_iff]
  constructor
  · rintro ⟨bytes, hbytes, ht⟩
    rw [← ofUtf8?_eq_some_iff.mp ht]
    exact unescapes_of_unescapedBytes hbytes
  · exact fun h ↦ ⟨_, h.unescapedBytes_eq, ofUtf8?_eq_some_iff.mpr rfl⟩

/-! ## Texts without a plus behind a percent sign -/

theorem Unescapes.mono {pair' : Char → Char → Nat → Prop}
    (hpair : ∀ a b n, pair a b n → pair' a b n)
    (h : Unescapes pair keep s bytes) : Unescapes pair' keep s bytes := by
  induction h with
  | nil => exact .nil
  | char hc h ih => exact .char hc ih
  | escape hp h ih => exact .escape (hpair _ _ _ hp) ih

theorem Unescapes.of_plusless (hs : ¬['%', '+'] <:+: s) (h : Unescapes IsBytePair keep s bytes) :
    Unescapes IsHexPair keep s bytes := by
  induction h with
  | nil => exact .nil
  | @char c s bytes hc h ih =>
    exact .char hc (ih fun hplus ↦ hs (hplus.trans (List.suffix_cons c s).isInfix))
  | @escape a b n s bytes hp h ih =>
    have htail : ¬['%', '+'] <:+: s := fun hplus ↦
      hs (hplus.trans (List.suffix_append ['%', a, b] s).isInfix)
    rcases hp with hp | ⟨rfl, -, -⟩
    · exact .escape hp (ih htail)
    · exact absurd (List.prefix_append ['%', '+'] (b :: s)).isInfix hs

theorem unescapes_iff_of_plusless (hs : ¬['%', '+'] <:+: s) :
    Unescapes IsHexPair keep s bytes ↔ Unescapes IsBytePair keep s bytes :=
  ⟨.mono fun _ _ _ ↦ .inl, .of_plusless hs⟩

end HtmlTemplate.Text

namespace HtmlTemplate.Builtin

open Text (IsBytePair IsHexPair IsWellEscaped Unescapes utf8 uriReserved)

/-- The outcome of decoding a text in which `pair` says which two characters stand for a byte, and
the escapes of the characters in `keep` stay. -/
structure IsDecoded (pair : Char → Char → Nat → Prop) (keep : List Char) (s : String)
    (outcome : Except EvalError Value) : Prop where
  /-- It succeeds exactly if a pair is behind every percent sign and the bytes are UTF-8. -/
  succeeds_iff : (∃ v, outcome = .ok v) ↔ IsWellEscaped pair s.toList ∧
    ∃ bytes, Unescapes pair keep s.toList bytes ∧ ∃ t, bytes = utf8 t
  /-- The value is the text that the bytes are. -/
  value : ∀ v, outcome = .ok v →
    ∃ t, v = .string t ∧ Unescapes pair keep s.toList (utf8 t.toList)
  /-- In any other case the URI is malformed. -/
  error : (¬∃ v, outcome = .ok v) → outcome = .error .malformedURI

variable {pair : Char → Char → Nat → Prop} {keep : List Char} {s : String}

def decoded (keep : List Char) (s : String) : Except EvalError Value :=
  match Text.decodeUri? keep s.toList with
  | some t => .ok (.string t)
  | none => .error .malformedURI

theorem isDecoded_of_unescapes_iff (hpair : ∀ a b n, pair a b n → a ≠ '%' ∧ b ≠ '%')
    (h : ∀ bytes, Unescapes pair keep s.toList bytes ↔ Unescapes IsBytePair keep s.toList bytes) :
    IsDecoded pair keep s (decoded keep s) := by
  have hsome (t : String) :
      Text.decodeUri? keep s.toList = some t ↔ Unescapes pair keep s.toList (utf8 t.toList) :=
    Text.decodeUri?_eq_some_iff.trans (h _).symm
  rw [decoded]
  rcases hdecode : Text.decodeUri? keep s.toList with _ | t
  · refine ⟨iff_of_false nofun ?_, nofun, fun _ ↦ rfl⟩
    rintro ⟨-, _, hbytes, t, rfl⟩
    rw [← String.toList_ofList (l := t), ← hsome, hdecode] at hbytes
    cases hbytes
  · have ht := (hsome t).mp hdecode
    refine ⟨iff_of_true ⟨_, rfl⟩ ⟨ht.isWellEscaped hpair, _, ht, _, rfl⟩, ?_, fun hno ↦ ?_⟩
    · rintro _ ⟨⟩
      exact ⟨t, rfl, ht⟩
    · exact absurd ⟨_, rfl⟩ hno

theorem isDecoded_decoded (keep : List Char) (s : String) :
    IsDecoded IsBytePair keep s (decoded keep s) :=
  isDecoded_of_unescapes_iff (fun _ _ _ h ↦ h.ne_percent) fun _ ↦ Iff.rfl

private theorem isDecoded_of_plusless (keep : List Char) (h : ¬['%', '+'] <:+: s.toList) :
    IsDecoded IsHexPair keep s (decoded keep s) :=
  isDecoded_of_unescapes_iff (fun _ _ _ h ↦ IsBytePair.ne_percent (.inl h)) fun _ ↦
    Text.unescapes_iff_of_plusless h

/-- **Decoding fails exactly on malformed texts.** A plus may stand for the first digit of an
escape; apart from that, escapes are two hexadecimal digits. -/
theorem call_decode (s : String) :
    (IsDecoded IsBytePair [] s (decodeURIComponent.call [.string s]) ∧
      IsDecoded IsBytePair uriReserved s (decodeURI.call [.string s])) ∧
    (¬['%', '+'] <:+: s.toList →
      IsDecoded IsHexPair [] s (decodeURIComponent.call [.string s]) ∧
        IsDecoded IsHexPair uriReserved s (decodeURI.call [.string s])) :=
  ⟨⟨isDecoded_decoded [] s, isDecoded_decoded uriReserved s⟩, fun h ↦
    ⟨isDecoded_of_plusless [] h, isDecoded_of_plusless uriReserved h⟩⟩

/-- In `%26%C3%A9` no plus is behind a percent sign. -/
theorem call_decode_ampersand : ¬['%', '+'] <:+: "%26%C3%A9".toList ∧
    IsDecoded IsHexPair [] "%26%C3%A9" (decodeURIComponent.call [.string "%26%C3%A9"]) ∧
      IsDecoded IsHexPair uriReserved "%26%C3%A9" (decodeURI.call [.string "%26%C3%A9"]) := by
  have h : ¬['%', '+'] <:+: "%26%C3%A9".toList := by decide +kernel
  exact ⟨h, (call_decode "%26%C3%A9").2 h⟩

/-- A plus with one hexadecimal digit is decoded, although it is no pair of hexadecimal digits. -/
theorem call_decode_plus :
    ¬∀ s, IsDecoded IsHexPair [] s (decodeURIComponent.call [.string s]) := by
  intro h
  have hpair : IsBytePair '+' 'f' 15 := .inr ⟨rfl, by decide, by decide⟩
  have hbytes : Unescapes IsBytePair [] "%+f".toList (utf8 ['\x0f']) := .escape hpair .nil
  have hsucceeds := (isDecoded_decoded [] "%+f").succeeds_iff.mpr
    ⟨hbytes.isWellEscaped fun _ _ _ hp ↦ hp.ne_percent, _, hbytes, _, rfl⟩
  obtain ⟨a, b, r, n, heq, hhex, -, -⟩ :=
    ((h "%+f").succeeds_iff.mp hsucceeds).1 ['+', 'f'] (List.suffix_refl _)
  cases heq
  exact absurd hhex (by decide)

end HtmlTemplate.Builtin

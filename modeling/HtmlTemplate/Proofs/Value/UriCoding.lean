import HtmlTemplate.Proofs.Text.Bytes
import HtmlTemplate.Value.Call

/-!
# Percent coding read back

Decoding takes the written form of one character at a time and gives the bytes of that character,
whatever follows (`unescapedBytes_encodeChar`). The escapes that decoding leaves alone are those of
characters that are kept, and no byte of an escaped character is the byte of one: a character of one
byte would have been kept itself, and the bytes of the others are no ASCII. So the bytes of the
whole text come back (`unescapedBytes_encodeUri`), and they are the text in UTF-8.

## Characters that are kept

There are two sets: the characters that encoding leaves as they are, and those of which decoding
leaves the escapes. The second set is part of the first, so no escape that encoding writes is left
by decoding. The percent sign is in neither.
-/

namespace HtmlTemplate.Text

open Number (digitValue isHexDigit)

variable {keep : List Char}

/-! ## One escape -/

theorem digitValue_hexDigit : ∀ n < 16, digitValue (hexDigit n) = n ∧ hexDigit n ≠ '+' := by decide

private theorem pairValue?_hexDigit (b : UInt8) :
    pairValue? (hexDigit (b.toNat / 16)) (hexDigit (b.toNat % 16)) = some b.toNat := by
  have hb : b.toNat < 256 := b.toNat_lt
  obtain ⟨hhigh, hplus⟩ := digitValue_hexDigit (b.toNat / 16) (by omega)
  obtain ⟨hlow, -⟩ := digitValue_hexDigit (b.toNat % 16) (by omega)
  have hdigits : isHexDigit (hexDigit (b.toNat / 16)) = true ∧
      isHexDigit (hexDigit (b.toNat % 16)) = true := by
    rw [isHexDigit, isHexDigit, Number.isDigitOf, Number.isDigitOf, hhigh, hlow, decide_eq_true_eq,
      decide_eq_true_eq]
    omega
  rw [pairValue?, hdigits.1, hdigits.2, Bool.or_true, Bool.and_true, if_pos rfl, if_neg hplus,
    hhigh, hlow, Nat.div_add_mod']

theorem unescapedBytes_escape {b : UInt8} (s : List Char)
    (hb : b.toNat < 128 → Char.ofNat b.toNat ∉ keep) :
    unescapedBytes keep ('%' :: hexPair b.toNat ++ s) = (unescapedBytes keep s).map (b :: ·) := by
  have hleft : ¬(decide (b.toNat < 128) && keep.contains (Char.ofNat b.toNat)) = true := by
    rw [Bool.and_eq_true, decide_eq_true_eq, List.contains_iff_mem, not_and]
    exact hb
  rw [hexPair, List.cons_append, List.cons_append, List.cons_append, List.nil_append,
    unescapedBytes, if_pos rfl]
  simp only [pairValue?_hexDigit, Option.bind_eq_bind, Option.bind_some, hleft, UInt8.ofNat_toNat]
  cases unescapedBytes keep s <;> rfl

theorem unescapedBytes_cons_of_ne {c : Char} (s : List Char) (hc : c ≠ '%') :
    unescapedBytes keep (c :: s) = (unescapedBytes keep s).map (String.utf8EncodeChar c ++ ·) := by
  rw [unescapedBytes.eq_def]
  simp only [if_neg hc]
  cases unescapedBytes keep s <;> rfl

/-! ## One character -/

def encodeChar (keep : List Char) (c : Char) : List Char :=
  if isUriSafe keep c then [c]
  else (String.utf8EncodeChar c).flatMap fun b ↦ '%' :: hexPair b.toNat

theorem encodeUri_cons (c : Char) (s : List Char) :
    encodeUri keep (c :: s) = encodeChar keep c ++ encodeUri keep s := List.flatMap_cons

private theorem unescapedBytes_escapes {bs : List UInt8} (s : List Char)
    (hbs : ∀ b ∈ bs, b.toNat < 128 → Char.ofNat b.toNat ∉ keep) :
    unescapedBytes keep ((bs.flatMap fun b ↦ '%' :: hexPair b.toNat) ++ s) =
      (unescapedBytes keep s).map (bs ++ ·) := by
  induction bs with
  | nil => exact Option.map_id'.symm
  | cons b bs ih =>
    rw [List.flatMap_cons, List.append_assoc, unescapedBytes_escape _ (hbs b List.mem_cons_self),
      ih fun b' hb' ↦ hbs b' (List.mem_cons_of_mem b hb'), Option.map_map]
    rfl

theorem ofNat_notMem_keep {c : Char} {b : UInt8} (hc : isUriSafe keep c = false)
    (hb : b ∈ String.utf8EncodeChar c) (hascii : b.toNat < 128) : Char.ofNat b.toNat ∉ keep := by
  rcases Nat.lt_or_ge c.toNat 128 with hlt | hge
  · rw [utf8EncodeChar_of_ascii hlt, List.mem_singleton] at hb
    have hnat : b.toNat = c.toNat := by
      rw [hb, UInt8.toNat_ofNat']
      omega
    rw [hnat, Char.ofNat_toNat]
    intro hmem
    rw [isUriSafe, List.contains_iff_mem.mpr hmem, Bool.or_true] at hc
    cases hc
  · exact absurd hascii (Nat.not_lt.mpr (le_of_mem_utf8EncodeChar hge hb))

theorem unescapedBytes_encodeChar (hkeep : '%' ∉ keep) (c : Char) (s : List Char) :
    unescapedBytes keep (encodeChar keep c ++ s) =
      (unescapedBytes keep s).map (String.utf8EncodeChar c ++ ·) := by
  rw [encodeChar]
  split_ifs with hsafe
  · refine unescapedBytes_cons_of_ne s ?_
    rintro rfl
    rw [isUriSafe, Bool.or_eq_true, List.contains_iff_mem] at hsafe
    exact hsafe.elim (fun h ↦ absurd h (by decide)) hkeep
  · exact unescapedBytes_escapes s fun b hb ↦ ofNat_notMem_keep (Bool.not_eq_true _ ▸ hsafe) hb

/-! ## A text -/

theorem unescapedBytes_encodeUri (hkeep : '%' ∉ keep) (s : List Char) :
    unescapedBytes keep (encodeUri keep s) = some (utf8 s) := by
  induction s with
  | nil => rfl
  | cons c s ih =>
    rw [encodeUri_cons, unescapedBytes_encodeChar hkeep, ih, Option.map_some, utf8_cons]

theorem toArray_utf8 (s : List Char) : (⟨(utf8 s).toArray⟩ : ByteArray) = s.utf8Encode := by
  rw [List.utf8Encode, utf8, ← List.data_toByteArray]

theorem ofUtf8?_utf8 (s : List Char) : ofUtf8? (utf8 s) = some (String.ofList s) := by
  rw [ofUtf8?, toArray_utf8, String.fromUTF8?, dif_pos ByteArray.isValidUTF8_utf8Encode]
  rfl

/-- **Decoding undoes encoding**, whatever is kept, as long as the percent sign is not. -/
theorem decodeUri?_encodeUri (hkeep : '%' ∉ keep) (s : List Char) :
    decodeUri? keep (encodeUri keep s) = some (String.ofList s) := by
  rw [decodeUri?, unescapedBytes_encodeUri hkeep, Option.bind_some, ofUtf8?_utf8]

end HtmlTemplate.Text

namespace HtmlTemplate.Builtin

/-- **Both pairs of functions undo each other**: every text has an encoded form, and decoding that
form gives the text back. -/
theorem call_decode_of_encode (s : String) :
    (∃ t, encodeURIComponent.call [.string s] = .ok (.string t) ∧
      decodeURIComponent.call [.string t] = .ok (.string s)) ∧
    ∃ t, encodeURI.call [.string s] = .ok (.string t) ∧
      decodeURI.call [.string t] = .ok (.string s) := by
  have hdecode (keep : List Char) (hkeep : '%' ∉ keep) : Text.decodeUri? keep
      (String.ofList (Text.encodeUri keep s.toList)).toList = some s := by
    rw [String.toList_ofList, Text.decodeUri?_encodeUri hkeep, String.ofList_toList]
  refine ⟨⟨_, rfl, ?_⟩, ⟨_, rfl, ?_⟩⟩
  · have := hdecode [] List.not_mem_nil
    simp only [call, argument, List.getElem?_cons_zero, Option.getD_some, Value.toText, this]
  · have := hdecode Text.uriReserved (by decide)
    simp only [call, argument, List.getElem?_cons_zero, Option.getD_some, Value.toText, this]

end HtmlTemplate.Builtin

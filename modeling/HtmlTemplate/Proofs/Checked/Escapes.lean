import HtmlTemplate.Proofs.Checked.Access
import HtmlTemplate.Proofs.Value.UnitEscapes
import HtmlTemplate.Proofs.Value.UriDecoding

/-!
# Escapes with checked access

Escapes of bytes are looked for byte by byte. The slice of two bytes behind a percent sign may be
out of range or end inside a character, and is none then; but these are the texts in which no pair
of characters stands there either (`bind_takeBytes_two`). A pair is ASCII, so that the next byte to
be read begins a character again, and the slice of the whole escape is in range
(`unescapedBytes_eq`).

Escapes of units are looked for by characters, with slices that stand behind comparisons with the
length of the text (`escapeAt_eq`).

## Bytes and characters

The plain reader of escapes goes through a list of characters and takes what stands in front of it
apart. The checked ones keep an offset or an index instead, and what relates the two is the list
that is left: at an offset that is the width of what was read, the bytes that are there are those of
the rest. The inductions are therefore the ones of the plain reader, for any offset and anything
read so far.
-/

namespace HtmlTemplate.Checked

open Number (digitValue isHexDigit ofDigits)
open Text (pairValue? unitInFront? unitsOf utf8)

variable {keep s r t : List Char} {a b c d : Char} {i n : Nat}

/-! ## Hexadecimal digits -/

theorem isAsciiClass_isHexDigit : Text.IsAsciiClass isHexDigit := by
  intro c hc
  rw [isHexDigit, Number.isDigitOf, decide_eq_true_eq, digitValue] at hc
  split_ifs at hc with hdigit hlower hupper
  · have := Text.isDigit_iff.mp hdigit
    omega
  · have := Text.isLower_iff.mp hlower
    omega
  · have := Text.isUpper_iff.mp hupper
    omega
  · exact absurd hc (by decide)

theorem dropPlus_of_ne (h : a ≠ '+') (s : List Char) : Number.dropPlus (a :: s) = a :: s := by
  unfold Number.dropPlus
  split
  · rename_i heq
    exact absurd (List.cons.inj heq).1 h
  · rfl

/-- Hexadecimal digits are a number, which is below a bound if there are few enough. -/
theorem numeral?_eq_some {ds : List Char} {bound : Nat} (hs : Number.dropPlus s = ds) (ne : ds ≠ [])
    (h : ∀ c ∈ ds, isHexDigit c = true) (hbound : 16 ^ ds.length ≤ bound) :
    numeral? 16 bound s = some (ofDigits 16 ds) := by
  have hall : ds.all (Number.isDigitOf 16) = true := List.all_eq_true.mpr h
  rw [numeral?, hs, hall, List.isEmpty_eq_false_iff.mpr ne]
  exact if_pos (Nat.lt_of_lt_of_le (Number.ofDigits_lt h) hbound)

theorem numeral?_eq_none {ds : List Char} (bound : Nat) (hs : Number.dropPlus s = ds) (hc : c ∈ ds)
    (h : isHexDigit c = false) : numeral? 16 bound s = none := by
  have hall : ds.all (Number.isDigitOf 16) = false :=
    List.all_eq_false.mpr ⟨c, hc, Bool.eq_false_iff.mp h⟩
  rw [numeral?, hs, hall, Bool.not_false, Bool.or_true]
  rfl

theorem numeral?_pair (a b : Char) : numeral? 16 256 [a, b] = pairValue? a b := by
  rw [pairValue?]
  by_cases ha : a = '+'
  · subst ha
    have hdrop : Number.dropPlus ['+', b] = [b] := rfl
    cases hb : isHexDigit b
    · rw [numeral?_eq_none 256 hdrop List.mem_cons_self hb]
      rfl
    · rw [numeral?_eq_some hdrop (by simp) (by simpa using hb) (by simp),
        Number.ofDigits_singleton]
      rfl
  · have hdrop := dropPlus_of_ne ha [b]
    rw [decide_eq_false ha, Bool.false_or, if_neg ha]
    cases ha' : isHexDigit a
    · rw [numeral?_eq_none 256 hdrop List.mem_cons_self ha']
      rfl
    cases hb : isHexDigit b
    · rw [numeral?_eq_none 256 hdrop (by simp) hb]
      rfl
    · rw [numeral?_eq_some hdrop (by simp) (by simp [ha', hb]) (by simp),
        ← List.singleton_append, Number.ofDigits_append, Number.ofDigits_singleton,
        Number.ofDigits_singleton]
      rfl

theorem ascii_of_pairValue? (h : pairValue? a b = some n) : a.toNat < 128 ∧ b.toNat < 128 := by
  rcases Text.pairValue?_eq_some_iff.mp h with ⟨ha, hb, -⟩ | ⟨rfl, hb, -⟩
  · exact ⟨isAsciiClass_isHexDigit a ha, isAsciiClass_isHexDigit b hb⟩
  · exact ⟨by decide, isAsciiClass_isHexDigit b hb⟩

def pairInFront? : List Char → Option Nat
  | a :: b :: _ => pairValue? a b
  | _ => none

/-- **Two bytes are as good as two characters**: if they are one character, or are not there, or end
inside a character, no pair is there either. -/
theorem bind_takeBytes_two (t : List Char) :
    (Text.takeBytes 2 t).bind (numeral? 16 256) = pairInFront? t := by
  have hnone {a b : Char} (h : a.utf8Size ≠ 1 ∨ b.utf8Size ≠ 1) : pairValue? a b = none := by
    refine Option.eq_none_iff_forall_ne_some.mpr fun n hn ↦ ?_
    obtain ⟨ha, hb⟩ := ascii_of_pairValue? hn
    exact h.elim (· (Text.utf8Size_of_ascii ha)) (· (Text.utf8Size_of_ascii hb))
  have hnil (n : Nat) : Text.takeBytes (n + 1) [] = none := by rw [Text.takeBytes]
  rcases t with _ | ⟨a, t⟩
  · rw [hnil]
    rfl
  have hpos := a.utf8Size_pos
  by_cases ha : a.utf8Size = 1
  · rw [Text.takeBytes_cons a t 2 (by omega), ha]
    rcases t with _ | ⟨b, t⟩
    · rw [hnil]
      rfl
    have hpos := b.utf8Size_pos
    by_cases hb : b.utf8Size = 1
    · rw [Text.takeBytes_cons b t 1 (by omega), hb, Text.takeBytes_zero]
      exact numeral?_pair a b
    · rw [Text.takeBytes_cons_of_lt t (by decide) (by omega), pairInFront?, hnone (.inr hb)]
      rfl
  · have hfront : pairInFront? (a :: t) = none := by
      rcases t with _ | ⟨b, t⟩
      · rfl
      · exact hnone (.inl ha)
    rw [hfront]
    by_cases htwo : a.utf8Size = 2
    · -- two bytes that are one character: it is no digit, and no sign before one
      have hne : a ≠ '+' := by
        rintro rfl
        exact ha (by decide)
      have hhex : isHexDigit a = false := Bool.eq_false_iff.mpr fun h ↦
        ha (Text.utf8Size_of_ascii (isAsciiClass_isHexDigit a h))
      rw [Text.takeBytes_cons a t 2 (by omega), htwo, Text.takeBytes_zero]
      exact numeral?_eq_none 256 (dropPlus_of_ne hne []) List.mem_cons_self hhex
    · rw [Text.takeBytes_cons_of_lt t (by decide) (by omega)]
      rfl

/-! ## Writing -/

def encodeUri (keep s : List Char) : Checked (List Char) := do
  let forms ← s.mapM fun c ↦
    if Text.isUriSafe keep c then pure [c]
    else do
      return (← buffered 4 (String.utf8EncodeChar c)).flatMap fun b ↦ '%' :: Text.hexPair b.toNat
  return forms.flatten

theorem encodeUri_eq (keep s : List Char) : encodeUri keep s = pure (Text.encodeUri keep s) := by
  have hsize (c : Char) : (String.utf8EncodeChar c).length ≤ 4 := by
    rw [String.length_utf8EncodeChar]
    exact c.utf8Size_le_four
  rw [encodeUri, mapM_eq (g := Text.encodeChar keep), pure_bind, ← List.flatMap_def]
  · rfl
  · intro c
    rw [buffered_eq (hsize c), Text.encodeChar]
    split <;> rfl

/-! ## Reading bytes

A byte that begins no escape is taken as it is, however many bytes its character has. At a percent
sign the two bytes behind it are looked at, and the reader is at the beginning of a character again
whether they are a pair or not. -/

/-- The bytes of a text with escapes from a byte offset on, behind those that are there already, if
the escapes are well formed. -/
def unescapedBytes (keep s : List Char) (i : Nat) (out : List UInt8) :
    Checked (Option (List UInt8)) :=
  if i < (utf8 s).length then do
    let b ← item (utf8 s) i
    if !Text.byteIn (· == '%') b then unescapedBytes keep s (i + 1) (out ++ [b])
    else
      -- this slice is looked for, and is not there if it is out of range or inside a character
      match (Text.dropBytes (i + 1) s).bind (Text.takeBytes 2) with
      | none => pure none
      | some pair =>
        match ← natIn? 16 256 pair with
        | none => pure none
        | some n =>
          if n < 128 && keep.contains (Char.ofNat n) then
            unescapedBytes keep s (i + 3) (out ++ (← part i (i + 3) (utf8 s)))
          else unescapedBytes keep s (i + 3) (out ++ [UInt8.ofNat n])
  else pure (some out)
termination_by (utf8 s).length - i

def decodeUri? (keep s : List Char) : Checked (Option String) := do
  return (← unescapedBytes keep s 0 []).bind Text.ofUtf8?

theorem unescapedBytes_skip {bs rest : List UInt8} (h : (utf8 s).drop i = bs ++ rest)
    (hbs : ∀ b ∈ bs, Text.byteIn (· == '%') b = false) (out : List UInt8) :
    unescapedBytes keep s i out = unescapedBytes keep s (i + bs.length) (out ++ bs) := by
  induction bs generalizing i out with
  | nil => rw [List.length_nil, Nat.add_zero, List.append_nil]
  | cons b bs ih =>
    obtain ⟨hb, hbs⟩ := List.forall_mem_cons.mp hbs
    rw [unescapedBytes, if_pos (lt_length_of_drop h), item_eq (getElem?_of_drop h), pure_bind, hb,
      Bool.not_false, if_pos rfl, ih (drop_succ_of_drop h) hbs, List.length_cons, List.append_assoc,
      List.singleton_append, Nat.add_assoc, Nat.add_comm 1]

private theorem unescapedBytes_char (h : Text.dropBytes i s = some (c :: r)) (hc : c ≠ '%')
    (out : List UInt8) :
    unescapedBytes keep s i out =
      unescapedBytes keep s (i + c.utf8Size) (out ++ String.utf8EncodeChar c) := by
  have hdrop := Text.drop_utf8 h
  rw [Text.utf8_cons] at hdrop
  have hbytes : ∀ b ∈ String.utf8EncodeChar c, Text.byteIn (· == '%') b = false := by
    obtain ⟨b, bs, hb, hfirst, hrest⟩ :=
      Text.byteIn_utf8EncodeChar (Text.isAsciiClass_beq (d := '%') (by decide)) c
    rw [beq_eq_false_iff_ne.mpr hc] at hfirst hrest
    rw [hb]
    exact List.forall_mem_cons.mpr ⟨hfirst, hrest⟩
  rw [unescapedBytes_skip hdrop hbytes, String.length_utf8EncodeChar]

theorem unescapedBytes_percent (h : Text.dropBytes i s = some ('%' :: t)) (out : List UInt8) :
    unescapedBytes keep s i out =
      match pairInFront? t with
      | none => pure none
      | some n =>
        if n < 128 && keep.contains (Char.ofNat n) then do
          unescapedBytes keep s (i + 3) (out ++ (← part i (i + 3) (utf8 s)))
        else unescapedBytes keep s (i + 3) (out ++ [UInt8.ofNat n]) := by
  have hdrop : (utf8 s).drop i = UInt8.ofNat '%'.toNat :: utf8 t := by
    rw [Text.drop_utf8 h, Text.utf8_cons, Text.utf8EncodeChar_of_ascii (by decide)]
    rfl
  have hpercent : Text.byteIn (· == '%') (UInt8.ofNat '%'.toNat) = true :=
    Text.byteIn_ofNat (by decide)
  rw [unescapedBytes, if_pos (lt_length_of_drop hdrop), item_eq (getElem?_of_drop hdrop), pure_bind,
    hpercent, Bool.not_true, if_neg Bool.false_ne_true, Text.dropBytes_succ h (by decide),
    Option.bind_some, ← bind_takeBytes_two]
  rcases Text.takeBytes 2 t with _ | pair
  · rfl
  dsimp only
  rw [natIn?_sixteen, pure_bind, Option.bind_some]

/-- With a pair behind it, a percent sign stands for the byte of the pair, or for itself. -/
theorem unescapedBytes_pair (h : Text.dropBytes i s = some ('%' :: a :: b :: t))
    (hpair : pairValue? a b = some n) (out : List UInt8) :
    unescapedBytes keep s i out =
      unescapedBytes keep s (i + 3) (out ++ Text.escapeBytes keep a b n) := by
  obtain ⟨ha, hb⟩ := ascii_of_pairValue? hpair
  have hwidth : Text.width ['%', a, b] = 3 := by
    rw [Text.width_cons, Text.width_cons, Text.width_cons, Text.utf8Size_of_ascii ha,
      Text.utf8Size_of_ascii hb]
    rfl
  have hpart : part i (i + 3) (utf8 s) = pure (utf8 ['%', a, b]) := by
    obtain ⟨before, rfl, rfl⟩ := Text.exists_of_dropBytes h
    rw [show '%' :: a :: b :: t = ['%', a, b] ++ t from rfl, Text.utf8_append, Text.utf8_append]
    refine part_append (Text.length_utf8 before).symm ?_
    rw [Text.length_utf8, Text.length_utf8, hwidth]
  rw [unescapedBytes_percent h, pairInFront?, hpair]
  dsimp only
  rw [hpart, pure_bind, Text.escapeBytes]
  simp only [Bool.and_eq_true, decide_eq_true_eq, List.contains_iff_mem]
  split <;> rfl

/-- **Every byte, slice and pair is there when it is read**, and the bytes are those of a reader of
characters. -/
theorem unescapedBytes_eq (h : Text.dropBytes i s = some r) (out : List UInt8) :
    unescapedBytes keep s i out = pure ((Text.unescapedBytes keep r).map (out ++ ·)) := by
  induction r using Text.unescapedBytes.induct generalizing i out with
  | case1 =>
    have hwidth := Text.width_of_dropBytes h
    rw [unescapedBytes, Text.length_utf8, if_neg (by rw [Text.width_nil] at hwidth; omega),
      Text.unescapedBytes, Option.map_some, List.append_nil]
  | case2 a b r ih =>
    rw [Text.unescapedBytes_pair]
    cases hpair : pairValue? a b with
    | none =>
      rw [unescapedBytes_percent h, pairInFront?, hpair]
      rfl
    | some n =>
      obtain ⟨ha, hb⟩ := ascii_of_pairValue? hpair
      have hrest :=
        Text.dropBytes_succ (Text.dropBytes_succ (Text.dropBytes_succ h (by decide)) ha) hb
      rw [unescapedBytes_pair h hpair, ih hrest, Option.bind_some, Option.map_map]
      simp only [List.append_assoc, Function.comp_def]
  | case3 r hshort =>
    have hpair : pairInFront? r = none := by
      unfold pairInFront?
      split
      · exact absurd rfl (hshort _ _ _)
      · rfl
    rw [unescapedBytes_percent h, hpair, Text.unescapedBytes.eq_def]
    simp only [if_true, Option.map_none]
  | case4 c r hc ih =>
    have hrest : Text.dropBytes (i + c.utf8Size) s = some r := by
      rw [Text.dropBytes_add h, Text.dropBytes_cons c r _ (Nat.le_refl _), Nat.sub_self,
        Text.dropBytes_zero]
    rw [unescapedBytes_char h hc, ih hrest, Text.unescapedBytes_cons_of_ne r hc, Option.map_map]
    simp only [List.append_assoc, Function.comp_def]

theorem decodeUri?_eq (keep s : List Char) :
    decodeUri? keep s = pure (Text.decodeUri? keep s) := by
  rw [decodeUri?, unescapedBytes_eq (Text.dropBytes_zero s), Text.decodeUri?]
  simp

/-! ## Reading units

A long escape is tried before a short one, and each compares the length of the text with what it
needs before it takes a slice. -/

def hexUnit? (digits : List Char) : Checked (Option Nat) :=
  if digits.all isHexDigit then natIn? 16 65536 digits else pure none

/-- The unit of a long escape whose percent sign is at a position. -/
def longUnit? (s : List Char) (i : Nat) : Checked (Option Nat) :=
  if s[i + 1]? = some 'u' ∧ i + 6 ≤ s.length then do hexUnit? (← part (i + 2) (i + 6) s)
  else pure none

/-- The unit of a short escape whose percent sign is at a position. -/
def shortUnit? (s : List Char) (i : Nat) : Checked (Option Nat) :=
  if i + 3 ≤ s.length then do hexUnit? (← part (i + 1) (i + 3) s) else pure none

/-- The unit of an escape, and how many characters it takes behind its percent sign. -/
def escapeAt (s : List Char) (i : Nat) : Checked (Option (Nat × Nat)) := do
  match ← longUnit? s i with
  | some unit => return some (unit, 5)
  | none => return (← shortUnit? s i).map (·, 2)

/-- The units of a text with escapes from a position on, behind those that are there already. -/
def unescapedUnits (s : List Char) (i : Nat) (out : List Nat) : Checked (List Nat) :=
  if i < s.length then do
    match ← (if (← item s i) = '%' then escapeAt s i else pure none) with
    | some (unit, more) => unescapedUnits s (i + 1 + more) (out ++ [unit])
    | none => unescapedUnits s (i + 1) (out ++ (← buffered 2 (unitsOf (← item s i))))
  else pure out
termination_by s.length - i

theorem hexUnit?_eq {ds : List Char} (ne : ds ≠ []) (hlength : ds.length ≤ 4) :
    hexUnit? ds = pure (if ds.all isHexDigit then some (ofDigits 16 ds) else none) := by
  rw [hexUnit?]
  split_ifs with hall
  · have hall := List.all_eq_true.mp hall
    obtain ⟨c, t, rfl⟩ := List.exists_cons_of_ne_nil ne
    have hc : c ≠ '+' := by
      rintro rfl
      exact absurd (hall '+' List.mem_cons_self) (by decide)
    rw [natIn?_sixteen, numeral?_eq_some (dropPlus_of_ne hc t) ne hall]
    exact Nat.pow_le_pow_right (by decide) hlength
  · rfl

theorem longUnit?_eq (h : s.drop i = '%' :: 'u' :: a :: b :: c :: d :: t) :
    longUnit? s i =
      pure (if [a, b, c, d].all isHexDigit then some (ofDigits 16 [a, b, c, d]) else none) := by
  have hu : s[i + 1]? = some 'u' := getElem?_of_drop (drop_succ_of_drop h)
  have hlength := congrArg List.length h
  simp only [List.length_drop, List.length_cons] at hlength
  have hpart : part (i + 2) (i + 6) s = pure [a, b, c, d] := part_of_drop ['u'] h rfl rfl
  rw [longUnit?, if_pos ⟨hu, by omega⟩, hpart, pure_bind, hexUnit?_eq (by simp) (by simp)]

theorem longUnit?_eq_none (h : s.drop i = '%' :: t)
    (ht : ∀ a b c d r, t ≠ 'u' :: a :: b :: c :: d :: r) : longUnit? s i = pure none := by
  refine if_neg fun ⟨hu, hroom⟩ ↦ ?_
  have hlength := congrArg List.length h
  rw [List.length_drop, List.length_cons] at hlength
  rw [← List.getElem?_drop, h, List.getElem?_cons_succ, ← List.head?_eq_getElem?] at hu
  obtain ⟨t, rfl⟩ := List.head?_eq_some_iff.mp hu
  match t, hlength, ht with
  | a :: b :: c :: d :: r, _, ht => exact ht a b c d r rfl
  | [], hlength, _ | [_], hlength, _ | [_, _], hlength, _ | [_, _, _], hlength, _ =>
    simp only [List.length_cons, List.length_nil] at hlength
    omega

private theorem shortUnit?_eq (h : s.drop i = '%' :: a :: b :: t) :
    shortUnit? s i = pure (if [a, b].all isHexDigit then some (ofDigits 16 [a, b]) else none) := by
  have hlength := congrArg List.length h
  simp only [List.length_drop, List.length_cons] at hlength
  have hpart : part (i + 1) (i + 3) s = pure [a, b] := part_of_drop [] h rfl rfl
  rw [shortUnit?, if_pos (by omega), hpart, pure_bind, hexUnit?_eq (by simp) (by simp)]

private theorem shortUnit?_eq_none (h : s.drop i = '%' :: t) (ht : ∀ a b r, t ≠ a :: b :: r) :
    shortUnit? s i = pure none := by
  refine if_neg fun hroom ↦ ?_
  have hlength := congrArg List.length h
  rw [List.length_drop, List.length_cons] at hlength
  match t, hlength, ht with
  | a :: b :: r, _, ht => exact ht a b r rfl
  | [], hlength, _ | [_], hlength, _ =>
    simp only [List.length_cons, List.length_nil] at hlength
    omega

/-- **The slices of an escape are in the text**, and the escape is the one that stands in front. -/
theorem escapeAt_eq (h : s.drop i = '%' :: t) :
    escapeAt s i = pure ((unitInFront? t).map fun (u, r) ↦ (u, t.length - r.length)) := by
  have hsub (r : List Char) (n : Nat) : r.length + n - r.length = n := Nat.add_sub_cancel_left _ _
  rw [escapeAt]
  fun_cases unitInFront? t with
  | case1 a b c d r hall =>
    rw [longUnit?_eq h, if_pos hall, pure_bind, Option.map_some]
    exact congrArg (fun n ↦ pure (some (_, n))) (hsub r 5).symm
  | case2 a b c d r hall =>
    rw [longUnit?_eq h, if_neg hall, pure_bind]
    dsimp only
    rw [shortUnit?_eq h]
    rfl
  | case3 a b r hlong hall =>
    have hall : [a, b].all isHexDigit = true := by simpa using hall
    rw [longUnit?_eq_none h fun _ _ _ _ _ ht ↦ by cases ht; exact hlong _ _ _ _ rfl rfl, pure_bind]
    dsimp only
    rw [shortUnit?_eq h, if_pos hall, pure_bind]
    exact congrArg (fun n ↦ pure (some (_, n))) (hsub r 2).symm
  | case4 a b r hlong hall =>
    have hall : ¬[a, b].all isHexDigit = true := by simpa using hall
    rw [longUnit?_eq_none h fun _ _ _ _ _ ht ↦ by cases ht; exact hlong _ _ _ _ rfl rfl, pure_bind]
    dsimp only
    rw [shortUnit?_eq h, if_neg hall]
    rfl
  | case5 t hlong hshort =>
    rw [longUnit?_eq_none h fun a b c d r ht ↦ hlong a b c d r ht, pure_bind]
    dsimp only
    rw [shortUnit?_eq_none h fun a b r ht ↦ hshort a b r ht]
    rfl

theorem drop_of_unitInFront? (h : unitInFront? t = some (n, r)) :
    t.drop (t.length - r.length) = r := by
  obtain ⟨front, rfl⟩ : ∃ front, t = front ++ r := by
    unfold unitInFront? at h
    split at h
    · rename_i a b c d r'
      split at h <;> cases h
      exact ⟨['u', a, b, c, d], rfl⟩
    · rename_i a b r' _
      split at h <;> cases h
      exact ⟨[a, b], rfl⟩
    · cases h
  rw [List.length_append, Nat.add_sub_cancel, List.drop_left]

/-- **Every character and slice is there when it is read**, and the units are those of a reader that
goes through the text. -/
theorem unescapedUnits_eq (s : List Char) (i : Nat) (out : List Nat) :
    unescapedUnits s i out = pure (out ++ Text.unescapedUnits (s.drop i)) := by
  have hsize (c : Char) : (unitsOf c).length ≤ 2 := by
    unfold unitsOf
    dsimp only
    split <;> simp
  generalize hr : s.drop i = r
  fun_induction Text.unescapedUnits r generalizing i out with
  | case1 =>
    rw [unescapedUnits, if_neg (Nat.not_lt.mpr (List.drop_eq_nil_iff.mp hr)), List.append_nil]
  | case2 c t u r hescape ih =>
    have hc : c = '%' := by
      by_contra hc
      rw [dif_neg hc] at hescape
      cases hescape
    subst hc
    rw [dif_pos rfl] at hescape
    -- the reader goes on behind the escape, as far as it is long
    have hrest : s.drop (i + 1 + (t.length - r.length)) = r := by
      rw [← List.drop_drop, drop_succ_of_drop hr, drop_of_unitInFront? hescape]
    rw [unescapedUnits, if_pos (lt_length_of_drop hr), item_eq (getElem?_of_drop hr), pure_bind,
      if_pos rfl, escapeAt_eq hr, hescape, Option.map_some, pure_bind]
    dsimp only
    rw [ih _ _ hrest, List.append_assoc]
    rfl
  | case3 c t hescape ih =>
    have hnone : (if c = '%' then escapeAt s i else pure none) = pure none := by
      split_ifs with hc
      · subst hc
        rw [dif_pos rfl] at hescape
        rw [escapeAt_eq hr, hescape]
        rfl
      · rfl
    rw [unescapedUnits, if_pos (lt_length_of_drop hr), item_eq (getElem?_of_drop hr), pure_bind,
      hnone, pure_bind]
    dsimp only
    rw [pure_bind, buffered_eq (hsize c), pure_bind, ih _ _ (drop_succ_of_drop hr),
      List.append_assoc]

end HtmlTemplate.Checked

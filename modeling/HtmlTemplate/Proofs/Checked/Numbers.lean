import HtmlTemplate.Number.Fixed
import HtmlTemplate.Proofs.Checked.Access
import HtmlTemplate.Proofs.Number.Digits
import HtmlTemplate.Proofs.Number.FloatInFront
import HtmlTemplate.Value.Call

/-!
# Numbers with checked access

The text of a number is laid out from its digits and the place of its point. How many zeros are
written and where the digits are cut are differences, and the place of the point is compared with
the number of digits before they are taken, so no count is below zero, and every cut is inside the
digits (`layout_eq`). Bases are compared with 2 and 36 before a digit is asked for (`radixText_eq`,
`integerInFront_eq`).

Numbers are read by byte offsets. A sign is looked for in the first byte and left out by a slice,
which begins at a character because the sign is one of ASCII (`signSlice_eq`); for the same reason a
cursor that goes byte by byte stops where characters end (`floatInFront_eq`).

## Why no count is below zero

Every count that could be below zero is a difference of the length of the digits and the place of
the point, and it is taken in the branch of a comparison of just these two. So the equations are
proved by the same comparisons, and the bound that a branch brings is what the access in it needs.
-/

namespace HtmlTemplate.Checked

open Number (Decimal decimalDigits zeros)

variable {s t r digits : List Char} {i : Nat} {base : Int}

/-! ## Layout -/

/-- The digits with one of them before the point, and the exponent with its sign. -/
def scientific (digits : List Char) (point : Int) : Checked (List Char) := do
  let e := point - 1
  let exponent := 'e' :: (if 0 ≤ e then '+' else '-') :: decimalDigits e.natAbs
  let (first, rest) ← splitAt 1 digits
  return if rest.isEmpty then first ++ exponent else first ++ '.' :: (rest ++ exponent)

def layout (digits : List Char) (point : Int) : Checked (List Char) := do
  let size : Int := Text.width digits
  if size ≤ point ∧ point ≤ 21 then
    return digits ++ (← repeated (point - size) '0')
  else if 0 < point ∧ point ≤ 21 then
    let (whole, fraction) ← splitAt point digits
    return whole ++ '.' :: fraction
  else if -6 < point ∧ point ≤ 0 then
    return '0' :: '.' :: ((← repeated (-point) '0') ++ digits)
  else scientific digits point

def numberChars (x : Float) : Checked (List Char) :=
  match Number.exact x with
  | .finite negative m e =>
    if m = 0 then pure ['0']
    else do
      let d := Number.shortest m e
      return Number.signText negative ++ (← layout (decimalDigits d.significand) d.point)
  | _ => pure (Number.chars x)

theorem toNat_lt_of_mem_decimalDigits (n : Nat) : ∀ c ∈ decimalDigits n, c.toNat < 128 :=
  fun c hc ↦ Text.isAsciiClass_isDigit c (Number.isDigit_of_mem_decimalDigits hc)

private theorem scientific_eq (d : Decimal) :
    scientific (decimalDigits d.significand) d.point = pure d.scientific := by
  have hascii := toNat_lt_of_mem_decimalDigits d.significand
  have hpos := List.length_pos_iff.mpr (Number.decimalDigits_ne_nil d.significand)
  rw [scientific, splitAt_eq hascii (by decide) (by omega), pure_bind, Decimal.scientific]
  rcases decimalDigits d.significand with _ | ⟨c, _ | ⟨c', cs⟩⟩ <;> rfl

/-- **Digits are laid out without a fault**, wherever the point stands. -/
theorem layout_eq (d : Decimal) : layout (decimalDigits d.significand) d.point = pure d.text := by
  have hascii := toNat_lt_of_mem_decimalDigits d.significand
  have hpos := List.length_pos_iff.mpr (Number.decimalDigits_ne_nil d.significand)
  have hpoint : d.point = (decimalDigits d.significand).length + d.exponent := rfl
  rw [layout, scientific_eq, Text.width_of_ascii hascii, Decimal.text, Decimal.positional]
  generalize decimalDigits d.significand = digits at hascii hpos hpoint
  rcases hexponent : d.exponent with e | e <;> rw [hexponent] at hpoint
  · -- no digit stands behind the point
    rw [Int.ofNat_eq_natCast] at hpoint
    by_cases hlarge : d.point ≤ 21
    · rw [if_pos ⟨by omega, hlarge⟩, if_pos ⟨by omega, hlarge⟩, repeated_eq (by omega), pure_bind,
        hpoint, add_sub_cancel_left, Int.toNat_natCast]
      rfl
    · rw [if_neg (by omega), if_neg (by omega), if_neg (by omega), if_neg (by omega)]
  · have hlt : d.point < digits.length := by omega
    rw [if_neg (by omega)]
    dsimp only
    rcases hp : d.point with (_ | p) | z <;> rw [hp] at hlt
    · -- the point stands before the first digit
      rfl
    · rw [Int.ofNat_eq_natCast] at hlt ⊢
      by_cases hlarge : p + 1 ≤ 21
      · rw [if_pos (by omega), splitAt_eq hascii (by omega) (by omega), if_pos (by omega)]
        rfl
      · rw [if_neg (by omega), if_neg (by omega), if_neg (by omega)]
    · by_cases hsmall : z < 5
      · rw [if_neg (by omega), if_pos (by omega), repeated_eq (by omega), if_pos (by omega)]
        rfl
      · rw [if_neg (by omega), if_neg (by omega), if_neg (by omega)]

theorem numberChars_eq (x : Float) : numberChars x = pure (Number.chars x) := by
  rw [numberChars, Number.chars]
  cases Number.exact x with
  | finite negative m e =>
    dsimp only
    rw [layout_eq, pure_bind]
    split <;> rfl
  | _ => rfl

/-! ## Other forms

A number in a base is written from its last digit on. A remainder by a base is below it, so it has a
digit in every base that is accepted. -/

def fixedChars (x : Float) (digits : Nat) : Checked (List Char) :=
  if Number.abs x < 1e21 then pure (Number.fixedChars x digits) else numberChars x

def digitsFromLeast (base : Int) (n : Nat) : Checked (List Char) :=
  -- a base of zero has no digits, so that nothing is divided by it
  match _h : digitFor? base (n % base.toNat) with
  | .error fault => .error fault
  | .ok digit =>
    let rest := n / base.toNat
    if rest = 0 then pure [digit.getD '0']
    else do return digit.getD '0' :: (← digitsFromLeast base rest)
termination_by n
decreasing_by
  have := two_le_of_digitFor? _h
  rename_i hrest
  exact Nat.div_lt_self (Nat.pos_of_ne_zero fun hn ↦ hrest (by simp [rest, hn])) (by omega)

def radixText (x : Float) (base : Int) : Checked (Except EvalError String) :=
  if 2 ≤ base ∧ base ≤ 36 then
    match Number.exact x with
    | .finite negative m e =>
      if base = 10 then do return .ok (String.ofList (← numberChars x))
      else if Number.isIntegral m e && Number.integerPart m e ≤ Number.twoPow 53 then do
        let n := Number.integerPart m e
        let digits ← digitsFromLeast base n
        return .ok (String.ofList (digits ++ Number.signText (negative && n != 0)).reverse)
      else pure (.error .radixOfUnsafeInteger)
    | _ => do return .ok (String.ofList (← numberChars x))
  else pure (.error .radixOutOfRange)

theorem fixedChars_eq (x : Float) (digits : Nat) :
    fixedChars x digits = pure (Number.fixedChars x digits) := by
  rw [fixedChars, numberChars_eq, ← apply_ite pure, Number.fixedChars]
  congr 1
  exact ite_eq_left_iff.mpr fun h ↦ (if_neg h).symm

theorem digitsFromLeast_step (two_le : 2 ≤ base) (le : base ≤ 36) (n : Nat) :
    digitsFromLeast base n =
      if n / base.toNat = 0 then pure [Number.digitChar (n % base.toNat)]
      else do
        return Number.digitChar (n % base.toNat) ::
          (← digitsFromLeast base (n / base.toNat)) := by
  have hdigit := digitFor?_eq two_le le (Nat.mod_lt n (by omega))
  rw [digitsFromLeast]
  split
  · rename_i h
    rw [hdigit] at h
    cases h
  · rename_i h
    rw [hdigit] at h
    cases h
    rfl

private theorem digitsFromLeast_eq (two_le : 2 ≤ base) (le : base ≤ 36) (h : 2 ≤ base.toNat)
    (n : Nat) :
    digitsFromLeast base n = pure (Number.digitsFromLeast base.toNat n h) := by
  fun_induction Number.digitsFromLeast base.toNat n h with
  | case1 n hn =>
    rw [digitsFromLeast_step two_le le, if_pos (Nat.div_eq_of_lt hn), Nat.mod_eq_of_lt hn]
  | case2 n hn ih =>
    have hrest := Nat.div_pos (Nat.not_lt.mp hn) (by omega)
    rw [digitsFromLeast_step two_le le, if_neg (by omega), ih]
    rfl

theorem radixText_eq (x : Float) (base : Int) :
    radixText x base = pure (HtmlTemplate.radixText x base) := by
  rw [radixText, HtmlTemplate.radixText]
  by_cases hbase : 2 ≤ base ∧ base ≤ 36
  · rw [if_pos hbase, dif_pos hbase]
    cases Number.exact x with
    | finite negative m e =>
      dsimp only
      rw [numberChars_eq, digitsFromLeast_eq hbase.1 hbase.2 (two_le_toNat hbase)]
      split_ifs
      · rfl
      · simp only [pure_bind, List.reverse_append, Number.radixDigits]
        cases negative && _ != 0 <;> rfl
      · rfl
    | _ => rw [numberChars_eq]; rfl
  · rw [if_neg hbase, dif_neg hbase]

/-! ## Reading -/

/-- Looks for a sign in the first byte, and leaves it out. -/
def signSlice (first : Option UInt8) (s : List Char) : Checked (Bool × List Char) :=
  if first.any (Text.byteIn (· == '-')) then do return (true, ← textFrom 1 s)
  else if first.any (Text.byteIn (· == '+')) then do return (false, ← textFrom 1 s)
  else pure (false, s)

def ofHex (s : List Char) : Checked Float := do
  return ((← natIn? 16 Number.hexBound s).map Number.ofNat).getD Number.nan

def ofTrimmed (s : List Char) : Checked Float :=
  if s.isEmpty then pure 0
  else do
    let (negative, unsigned) ← signSlice (some (← item (Text.utf8 s) 0)) s
    if unsigned = Number.infinityWord then return Number.withSign negative Number.infinity
    match Number.dropHexMark unsigned with
    | some hex =>
      if negative || s.head? == some '+' || hex.isEmpty then return Number.nan
      ofHex hex
    | none => return Number.decimalByFilter negative unsigned

def digitsInFront (base : Int) : List Char → Checked (List Nat)
  | [] => pure []
  | c :: s => do
    match ← digitIn? base c with
    | some d => return d :: (← digitsInFront base s)
    | none => return []

def sumInFront (negative : Bool) (base : Int) (s : List Char) : Checked Float := do
  let digits ← digitsInFront base s
  if digits.isEmpty then return Number.nan
  return Number.withSign negative
    (digits.foldl (fun x d ↦ x * Number.ofNat base.toNat + Number.ofNat d) 0)

/-- The value of the digits of a base in front of a text; the text chooses the base 0. -/
def integerInFront (s : List Char) (base : Int) : Checked Float := do
  let s := Text.trimStart s
  let (negative, rest) ← signSlice (Text.utf8 s)[0]? s
  if base ≠ 0 ∧ ¬(2 ≤ base ∧ base ≤ 36) then return Number.nan
  let (base, rest) :=
    match if base = 0 ∨ base = 16 then Number.dropHexMark rest else none with
    | some hex => (16, hex)
    | none => (base, rest)
  sumInFront negative (if base = 0 then 10 else base) rest

theorem signSlice_eq (s : List Char) :
    signSlice (Text.utf8 s)[0]? s = pure (Decimal.scanSign s) := by
  have hbyte (d : Char) (hd : d.toNat < 128) :
      (Text.utf8 s)[0]?.any (Text.byteIn (· == d)) = s.head?.any (· == d) :=
    Text.byteAt_utf8 (Text.isAsciiClass_beq hd) (Text.dropBytes_zero s)
  rw [signSlice, hbyte '-' (by decide), hbyte '+' (by decide)]
  rcases s with _ | ⟨c, r⟩
  · rfl
  have hslice (hc : c.toNat < 128) : textFrom 1 (c :: r) = pure r :=
    textFrom_eq (Text.dropBytes_succ (Text.dropBytes_zero _) hc)
  rw [List.head?_cons, Option.any_some, Option.any_some]
  by_cases hminus : c = '-'
  · subst hminus
    rw [if_pos (by decide), hslice (by decide)]
    rfl
  by_cases hplus : c = '+'
  · subst hplus
    rw [if_neg (by decide), if_pos (by decide), hslice (by decide)]
    rfl
  · rw [if_neg (by simpa using hminus), if_neg (by simpa using hplus),
      Number.scanSign_of_head (by simp [Number.isSignChar, hminus, hplus])]

private theorem ofHex_eq (s : List Char) : ofHex s = pure (Number.ofHex s) := by
  have hdigit : Number.isHexDigit = Number.isDigitOf 16 := rfl
  rw [ofHex, natIn?_sixteen, pure_bind, numeral?, Number.ofHex, hdigit]
  dsimp only
  split_ifs <;> rfl

private theorem exists_first_byte (c : Char) (s : List Char) :
    ∃ b, (Text.utf8 (c :: s))[0]? = some b := by
  refine ⟨_, List.getElem?_eq_getElem ?_⟩
  rw [Text.length_utf8]
  exact Text.width_pos_of_ne_nil (List.cons_ne_nil c s)

/-- A text is longer than what is left of it exactly if it has a sign. -/
theorem length_scanSign_lt_iff (s : List Char) :
    (Decimal.scanSign s).2.length < s.length ↔
      ((Decimal.scanSign s).1 || s.head? == some '+') = true := by
  unfold Decimal.scanSign
  split
  · exact iff_of_true (Nat.lt_succ_self _) rfl
  · exact iff_of_true (Nat.lt_succ_self _) rfl
  · rename_i hplus
    refine iff_of_false (Nat.lt_irrefl _) fun h ↦ ?_
    rw [Bool.false_or, beq_iff_eq, List.head?_eq_some_iff] at h
    obtain ⟨t, ht⟩ := h
    exact hplus t ht

theorem ofTrimmed_eq (s : List Char) : ofTrimmed s = pure (Number.ofTrimmed s) := by
  rw [← Number.ofTrimmedByFilter_eq, ofTrimmed, Number.ofTrimmedByFilter]
  rcases s with _ | ⟨c, s⟩
  · rfl
  obtain ⟨b, hb⟩ := exists_first_byte c s
  -- what is shorter than the text has lost a sign
  have hsigned := length_scanSign_lt_iff (c :: s)
  rw [item_eq hb, pure_bind, ← hb, signSlice_eq, pure_bind, List.isEmpty_cons,
    if_neg Bool.false_ne_true, if_neg Bool.false_ne_true]
  rcases hscan : Decimal.scanSign (c :: s) with ⟨negative, unsigned⟩
  rw [hscan] at hsigned
  dsimp only at hsigned ⊢
  by_cases hword : unsigned = Number.infinityWord
  · rw [if_pos hword, if_pos hword]
  rw [if_neg hword, if_neg hword]
  rcases Number.dropHexMark unsigned with _ | hex
  · rfl
  dsimp only
  by_cases hlt : unsigned.length < (c :: s).length
  · rw [if_pos hlt, if_pos (by rw [hsigned.mp hlt, Bool.true_or])]
  · rw [if_neg hlt, Bool.eq_false_iff.mpr (mt hsigned.mpr hlt), Bool.false_or, ofHex_eq]
    rcases hex with _ | ⟨d, hex⟩ <;> rfl

private theorem digitsInFront_eq (two_le : 2 ≤ base) (le : base ≤ 36) (s : List Char) :
    digitsInFront base s =
      pure ((s.takeWhile (Number.isDigitOf base.toNat)).map Number.digitValue) := by
  induction s with
  | nil => rfl
  | cons c s ih =>
    rw [digitsInFront, digitIn?, radix_eq two_le le, ih]
    by_cases hc : Number.isDigitOf base.toNat c = true
    · rw [List.takeWhile_cons_of_pos hc]
      simp only [pure_bind, if_pos hc, List.map_cons]
    · rw [List.takeWhile_cons_of_neg hc]
      simp only [pure_bind, if_neg hc, List.map_nil]

private theorem sumInFront_eq (two_le : 2 ≤ base) (le : base ≤ 36) (negative : Bool)
    (s : List Char) :
    sumInFront negative base s =
      let digits := s.takeWhile (Number.isDigitOf base.toNat)
      pure (if digits.isEmpty then Number.nan
        else Number.withSign negative (Number.sumDigits base.toNat digits)) := by
  rw [sumInFront, digitsInFront_eq two_le le, pure_bind, List.isEmpty_map, List.foldl_map]
  dsimp only
  split <;> rfl

theorem integerInFront_eq (s : String) (base : Int) :
    integerInFront s.toList base = pure (Number.integerInFront s base) := by
  rw [integerInFront, signSlice_eq, Number.integerInFront]
  simp only [pure_bind]
  by_cases hbase : base ≠ 0 ∧ ¬(2 ≤ base ∧ base ≤ 36)
  · rw [if_pos hbase, if_pos hbase]
  rw [if_neg hbase, if_neg hbase]
  rcases (if base = 0 ∨ base = 16 then Number.dropHexMark _ else none) with _ | hex
  · dsimp only
    by_cases hzero : base = 0
    · rw [if_pos hzero, if_pos hzero]
      exact @sumInFront_eq 10 (by decide) (by decide) _ _
    · obtain ⟨two_le, le⟩ : 2 ≤ base ∧ base ≤ 36 := not_not.mp fun h ↦ hbase ⟨hzero, h⟩
      rw [if_neg hzero, if_neg hzero]
      exact sumInFront_eq two_le le _ _
  · exact @sumInFront_eq 16 (by decide) (by decide) _ _

/-! ## Reading by a cursor

The cursor looks at a byte only in front of the end, and moves by one byte at a time over characters
that are bytes, so that every offset at which it stops can be cut at. -/

/-- Is a byte of the class at the offset? It is looked at only in front of the end. -/
def byteTest (p : Char → Bool) (bytes : List UInt8) (i : Nat) : Checked Bool :=
  if i < bytes.length then do return Text.byteIn p (← item bytes i) else pure false

/-- Moves an offset on while a byte of the class is there. -/
def skipBytes (p : Char → Bool) (bytes : List UInt8) (i : Nat) : Checked Nat :=
  if i < bytes.length then do
    if Text.byteIn p (← item bytes i) then skipBytes p bytes (i + 1) else return i
  else pure i
termination_by bytes.length - i

def signEnd (bytes : List UInt8) (i : Nat) : Checked Nat := do
  return if ← byteTest Number.isSignChar bytes i then i + 1 else i

/-- Moves behind digits and a point with digits, if one is there, and counts the digits. -/
def mantissaEnd (bytes : List UInt8) (i : Nat) : Checked (Nat × Nat) := do
  let wholeEnd ← skipBytes Char.isDigit bytes i
  if ← byteTest (· == '.') bytes wholeEnd then
    let fractionEnd ← skipBytes Char.isDigit bytes (wholeEnd + 1)
    return (wholeEnd - i + (fractionEnd - (wholeEnd + 1)), fractionEnd)
  return (wholeEnd - i, wholeEnd)

def exponentEnd (bytes : List UInt8) (i : Nat) : Checked Nat := do
  if ← byteTest Number.isExponentMark bytes i then
    let start ← signEnd bytes (i + 1)
    let stop ← skipBytes Char.isDigit bytes start
    return if start < stop then stop else i
  return i

def floatInFront (s : List Char) : Checked Float := do
  let s := Text.trimStart s
  let bytes := Text.utf8 s
  let start ← signEnd bytes 0
  if Number.infinityWord.isPrefixOf (← textFrom start s) then
    return if s.head? = some '-' then -Number.infinity else Number.infinity
  let (digits, stop) ← mantissaEnd bytes start
  if digits = 0 then return Number.nan
  let literal ← textTo (← exponentEnd bytes stop) s
  return (Number.generalValue? literal).getD Number.nan

theorem byteTest_eq (p : Char → Bool) (bytes : List UInt8) (i : Nat) :
    byteTest p bytes i = pure (Text.byteAt p bytes i) := by
  rw [byteTest, Text.byteAt]
  split_ifs with h
  · rw [item_eq (List.getElem?_eq_getElem h), List.getElem?_eq_getElem h]
    rfl
  · rw [List.getElem?_eq_none (Nat.not_lt.mp h)]
    rfl

theorem skipBytes_eq (p : Char → Bool) (bytes : List UInt8) (i : Nat) :
    skipBytes p bytes i = pure (Text.skipBytes p bytes i) := by
  have hstep (i : Nat) : skipBytes p bytes i =
      byteTest p bytes i >>= fun found ↦ if found then skipBytes p bytes (i + 1) else pure i := by
    rw [skipBytes, byteTest]
    split
    · rw [bind_assoc]
      rfl
    · rfl
  fun_induction Text.skipBytes p bytes i with
  | case1 i h ih => rw [hstep, byteTest_eq, pure_bind, if_pos h, ih]
  | case2 i h => rw [hstep, byteTest_eq, pure_bind, if_neg h]

theorem signEnd_eq (bytes : List UInt8) (i : Nat) :
    signEnd bytes i = pure (Number.signEnd bytes i) := by
  rw [signEnd, byteTest_eq]
  rfl

private theorem mantissaEnd_eq (bytes : List UInt8) (i : Nat) :
    mantissaEnd bytes i = pure (Number.mantissaEnd bytes i) := by
  simp only [mantissaEnd, byteTest_eq, skipBytes_eq, pure_bind, Number.mantissaEnd]
  split <;> rfl

private theorem exponentEnd_eq (bytes : List UInt8) (i : Nat) :
    exponentEnd bytes i = pure (Number.exponentEnd bytes i) := by
  simp only [exponentEnd, byteTest_eq, skipBytes_eq, signEnd_eq, pure_bind, Number.exponentEnd]
  split <;> rfl

/-- **The cursor meets no fault**, since its offsets are those of a cursor that meets none. -/
theorem floatInFront_eq (s : String) :
    floatInFront s.toList = pure (Number.floatInFront s) := by
  have hcursor := (Number.floatInFront_longest s).2.2
  rw [Number.floatByCursor] at hcursor
  simp only [floatInFront, signEnd_eq, mantissaEnd_eq, exponentEnd_eq, pure_bind]
  generalize Text.trimStart s.toList = t at hcursor ⊢
  dsimp only at hcursor
  rcases hdrop : Text.dropBytes (Number.signEnd (Text.utf8 t) 0) t with _ | unsigned
  · rw [hdrop] at hcursor
    cases hcursor
  rw [hdrop, Option.elim_some, pure_bind] at hcursor
  rw [textFrom_eq hdrop, pure_bind]
  by_cases hword : Number.infinityWord.isPrefixOf unsigned = true
  · rw [if_pos hword] at hcursor ⊢
    exact congrArg pure (Except.ok.inj hcursor)
  rw [if_neg hword] at hcursor ⊢
  by_cases hdigits : (Number.mantissaEnd (Text.utf8 t) (Number.signEnd (Text.utf8 t) 0)).1 = 0
  · rw [if_pos hdigits] at hcursor ⊢
    exact congrArg pure (Except.ok.inj hcursor)
  rw [if_neg hdigits] at hcursor ⊢
  rcases htake : Text.takeBytes _ t with _ | literal
  · rw [htake] at hcursor
    cases hcursor
  rw [htake, Option.elim_some, pure_bind] at hcursor
  rw [textTo_eq htake, pure_bind]
  rcases hvalue : Number.generalValue? literal with _ | x <;> rw [hvalue] at hcursor
  · cases hcursor
  · exact congrArg pure (Except.ok.inj hcursor)

end HtmlTemplate.Checked

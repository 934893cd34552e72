import HtmlTemplate.Proofs.Expr.Tokens
import HtmlTemplate.Proofs.Number.Comparison
import HtmlTemplate.Proofs.Number.Layout
import HtmlTemplate.Proofs.Number.Numerals
import HtmlTemplate.Proofs.Number.Shortest
import HtmlTemplate.Proofs.Text.Trimming

/-!
# Reading back a number's text

Both readers of numbers, of a whole text and of a token in an expression, take what a written number
denotes to the nearest double (`Denotes.exists_isNearest`). A double is the one nearest to its
shortest decimal, so a number's text is read back as the number (`text_reads_back`).

## Signs and zeros

The number of a token has no sign, so it is the absolute value that a token reads back, and a minus
in front is an operator. Zeros of both signs have one text. Equality does not tell them apart, which
is why the theorem speaks of doubles that are equal and not of the same ones.
-/

namespace HtmlTemplate.Number

open HtmlTemplate.Expr (tokenize)
open Float.Model (UnpackedFloat)

variable {s : List Char} {v : Rat} {x : Float} {m : Nat} {e : Int} {negative : Bool}

/-! ## The two readers

A token is scanned in front of a text and a whole text is trimmed before it is read. On the text of
a number both come to the same scanner. -/

theorem trim_of_isNumberChar (h : ∀ c ∈ s, isNumberChar c = true) : Text.trim s = s := by
  have hstart {s : List Char} (h : ∀ c ∈ s, isNumberChar c = true) :
      s.dropWhile Text.isBlank = s := by
    rcases s with _ | ⟨c, s⟩
    · rfl
    · exact List.dropWhile_cons_of_neg (by simp [isBlank_of_isNumberChar (h c List.mem_cons_self)])
  rw [Text.trim, Text.trimStart, hstart h, Text.trimEnd,
    hstart fun c hc ↦ h c (List.mem_reverse.mp hc), List.reverse_reverse]

private theorem isSign_signText (negative : Bool) : IsSign (signText negative) negative := by
  cases negative
  · exact .none
  · exact .minus

private theorem scanToken_of_scan {c : Char} {t : List Char} {d : Decimal} (hc : c.isDigit = true)
    (hmark : dropHexMark (c :: t) = none) (hscan : Decimal.scan (c :: t) = some (d, [])) :
    Expr.scanToken c t = .ok (.number d.toFloat, []) := by
  rw [Expr.scanToken, hc, if_pos (by rfl), Expr.scanNumber, hmark]
  dsimp only
  rw [hscan]
  rfl

def numberToken (y : Float) (s : List Char) : Expr.Lexed :=
  ⟨[⟨.number y, 0, Text.width s⟩], Text.width s⟩

/-- **What a text denotes is read by both readers**, and a minus is a minus. -/
theorem Denotes.exists_isNearest (h : Denotes s v) : ∃ y, IsNearest v y ∧
    (∀ negative, ofText (String.ofList (signText negative ++ s)) = withSign negative y) ∧
    tokenize (String.ofList s) = .ok (numberToken y s) := by
  obtain ⟨d, hscan, rfl⟩ := h.exists_scan
  obtain ⟨c, t, rfl, hc⟩ := h.exists_eq_cons
  have hchars := h.forall_isNumberChar
  refine ⟨d.toFloat, d.isNearest_toFloat, fun negative ↦ ?_, ?_⟩
  · have hsigned : ∀ c' ∈ signText negative ++ c :: t, isNumberChar c' = true := by
      cases negative
      · exact hchars
      · exact List.forall_mem_cons.mpr ⟨rfl, hchars⟩
    rw [ofText, String.toList_ofList, trim_of_isNumberChar hsigned]
    exact (IsLiteral.decimal (isSign_signText negative) h.isDecimal
      d.isNearest_toFloat).ofTrimmed_eq
  · rw [tokenize, String.toList_ofList]
    exact Expr.tokensFrom_single (isBlank_of_isNumberChar (hchars c List.mem_cons_self))
      (scanToken_of_scan hc h.isDecimal.dropHexMark_eq hscan)

theorem Decimal.ofText_text (d : Decimal) (negative : Bool) :
    ofText (String.ofList (signText negative ++ d.text)) = withSign negative d.toFloat := by
  obtain ⟨y, hy, htext, -⟩ := d.denotes_text.exists_isNearest
  rw [htext, hy.unique d.isNearest_toFloat]

theorem Decimal.tokenize_text (d : Decimal) :
    tokenize (String.ofList d.text) = .ok (numberToken d.toFloat d.text) := by
  obtain ⟨y, hy, -, htoken⟩ := d.denotes_text.exists_isNearest
  rw [htoken, hy.unique d.isNearest_toFloat]

/-! ## Numbers -/

theorem isNaN_iff (x : Float) : x.isNaN = true ↔ exact x = .nan := by
  show x.toModel.unpack.isNaN = true ↔ exact x = .nan
  rw [exact]
  cases x.toModel.unpack <;> exact ⟨fun h ↦ by cases h <;> rfl, fun h ↦ by cases h <;> rfl⟩

theorem isFinite_iff (x : Float) :
    x.isFinite = true ↔ ∃ negative m e, exact x = .finite negative m e := by
  show x.toModel.unpack.isFinite = true ↔ _
  rw [exact]
  cases x.toModel.unpack with
  | notANumber => exact iff_of_false Bool.false_ne_true (by rintro ⟨_, _, _, ⟨⟩⟩)
  | infinity s => exact iff_of_false Bool.false_ne_true (by rintro ⟨_, _, _, ⟨⟩⟩)
  | zero s => exact iff_of_true rfl ⟨_, _, _, rfl⟩
  | finite s m e hm => exact iff_of_true rfl ⟨_, _, _, rfl⟩

theorem beq_zero_of_exact (hx : exact x = .finite negative m e) : (x == 0) = decide (m = 0) := by
  have hzero : comparand 0 = .finite false 0 0 := rfl
  have hnan : x.isNaN = false := by
    rw [← Bool.not_eq_true, isNaN_iff, hx]
    exact Exact.noConfusion
  rw [Bool.eq_iff_iff, beq_iff, hzero, comparand, decide_eq_true_eq]
  obtain ⟨hu, rfl, rfl⟩ | ⟨hc, hu⟩ := unpack_of_exact hx
  · exact iff_of_true ⟨by rw [hu]; rfl, hnan⟩ rfl
  · refine iff_of_false (fun h ↦ ?_) hc.pos.ne'
    rw [hu] at h
    exact hc.pos.ne' (Exact.finite.inj h.1).2.1

private theorem eq_of_exact_infinite (hx : exact x = .infinite negative) :
    x = withSign negative infinity := by
  have hu : x.toModel.unpack = .infinity (signOf negative) := by
    rw [exact] at hx
    split at hx
    · cases hx
    · rename_i s hu
      cases hx
      rw [hu, signOf_isMinus]
    · cases hx
    · cases hx
  have hpack : x = .ofModel (.pack (.infinity (signOf negative))) := by rw [← hu, pack_unpack]
  rw [hpack]
  cases negative <;> rfl

theorem eq_withSign_shortest (hx : exact x = .finite negative m e) (hm : m ≠ 0) :
    x = withSign negative (shortest m e).toFloat := by
  cases negative
  · exact (toFloat_shortest hx hm).symm
  · rw [toFloat_shortest (exact_neg hx) hm]
    exact (neg_neg_of_exact hx).symm

theorem ofText_text_of_finite (hx : exact x = .finite negative m e) :
    ofText (text x) = if x == 0 then 0 else x := by
  rw [beq_zero_of_exact hx, text, chars, hx]
  dsimp only
  by_cases hm : m = 0
  · rw [if_pos hm, if_pos (decide_eq_true hm)]
    exact (⟨0, 0⟩ : Decimal).ofText_text false
  · rw [if_neg hm, if_neg (by simpa using hm), Decimal.ofText_text]
    exact (eq_withSign_shortest hx hm).symm

private theorem ofText_text_of_infinite (hx : exact x = .infinite negative) :
    ofText (text x) = if x == 0 then 0 else x := by
  have htext : ofText (text x) = withSign negative infinity := by
    rw [text, chars, hx]
    cases negative <;> rfl
  rw [htext, eq_of_exact_infinite hx]
  cases negative <;> rfl

private theorem not_zero_le_of_exact (hx : exact x = .finite true m e) (hm : m ≠ 0) : ¬0 ≤ x := by
  intro h
  have hle : UnpackedFloat.le (0 : Float).toModel.unpack x.toModel.unpack = true :=
    of_decide_eq_true h
  have hzero : (0 : Float).toModel.unpack = .zero .positive := rfl
  obtain ⟨-, rfl, -⟩ | ⟨hc, hu⟩ := unpack_of_exact hx
  · exact hm rfl
  · rw [hzero, hu] at hle
    cases hle

private theorem tokenize_text_of_finite (hx : exact x = .finite negative m e) (hnonneg : 0 ≤ x) :
    tokenize (text x) = .ok (numberToken (if x == 0 then 0 else x) (chars x)) := by
  rw [beq_zero_of_exact hx, text, chars, hx]
  dsimp only
  by_cases hm : m = 0
  · rw [if_pos hm, if_pos (decide_eq_true hm)]
    exact (⟨0, 0⟩ : Decimal).tokenize_text
  · rw [if_neg hm, if_neg (by simpa using hm)]
    cases negative
    · rw [← toFloat_shortest hx hm]
      exact (shortest m e).tokenize_text
    · exact absurd hnonneg (not_zero_le_of_exact hx hm)

/-- **The text of a number is read back as the number.** -/
theorem text_reads_back :
    (∀ x : Float, x.isNaN = false → ofText (text x) = if x == 0 then 0 else x) ∧
    (∀ x : Float, x.isFinite = true → 0 ≤ x →
      tokenize (text x) = .ok (numberToken (if x == 0 then 0 else x) (chars x))) ∧
    ∀ d : Decimal, Denotes d.text d.value ∧ IsNearest d.value d.toFloat ∧
      ofText (String.ofList d.text) = d.toFloat ∧
      tokenize (String.ofList d.text) = .ok (numberToken d.toFloat d.text) := by
  refine ⟨fun x hx ↦ ?_, fun x hfinite hnonneg ↦ ?_, fun d ↦ ?_⟩
  · rcases hexact : exact x with _ | negative | ⟨negative, m, e⟩
    · rw [(isNaN_iff x).mpr hexact] at hx
      cases hx
    · exact ofText_text_of_infinite hexact
    · exact ofText_text_of_finite hexact
  · obtain ⟨negative, m, e, hexact⟩ := (isFinite_iff x).mp hfinite
    exact tokenize_text_of_finite hexact hnonneg
  · exact ⟨d.denotes_text, d.isNearest_toFloat, d.ofText_text false, d.tokenize_text⟩

/-- The least double above zero is written as `5e-324`. -/
theorem text_reads_back_least : ofText (text (.ofBits 1)) = .ofBits 1 ∧
    tokenize (text (.ofBits 1)) = .ok (numberToken (.ofBits 1) (chars (.ofBits 1))) := by
  have hne : (Float.ofBits 1 == 0) = false := by decide +kernel
  have htext := text_reads_back.1 (.ofBits 1) (by decide +kernel)
  have htoken := text_reads_back.2.1 (.ofBits 1) (by decide +kernel) (by decide +kernel)
  rw [hne] at htext htoken
  exact ⟨htext, htoken⟩

end HtmlTemplate.Number

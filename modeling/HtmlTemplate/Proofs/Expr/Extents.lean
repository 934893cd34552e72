import HtmlTemplate.Proofs.Expr.Tokens
import Mathlib.Data.List.Infix

/-!
# How far tokens reach

A scanner gives back an end of what it was given, whether it succeeds or stops. So what was read of
a lexeme and what is left make up the text, the byte offsets that are put on the tokens add up to
the width of the text, and no token ends behind it.

## One statement for success and failure

Where a scanner stops, it gives back what it has not read, and the offset of the error is counted
from that. So `unread` is what a scanner has left in both cases, and that it is an end of the text
is proved once for both.
-/

namespace HtmlTemplate.Expr

open Number (Decimal)
open Text (isBlank width)

/-! ## Numbers -/

private theorem scanSign_suffix (s : List Char) : (Decimal.scanSign s).2 <:+ s := by
  unfold Decimal.scanSign
  split
  · exact List.suffix_cons _ _
  · exact List.suffix_cons _ _
  · exact List.suffix_rfl

private theorem scanFraction_suffix (s : List Char) : (Decimal.scanFraction s).2 <:+ s := by
  unfold Decimal.scanFraction
  split
  · exact (List.dropWhile_suffix _).trans (List.suffix_cons _ _)
  · exact List.suffix_rfl

private theorem scanExponent_suffix (s : List Char) : (Decimal.scanExponent s).2 <:+ s := by
  rcases s with _ | ⟨c, s⟩
  · exact List.suffix_rfl
  · have hdigits : (Decimal.scanDigits (Decimal.scanSign s).2).2 <:+ c :: s :=
      ((List.dropWhile_suffix _).trans (scanSign_suffix s)).trans (List.suffix_cons c s)
    unfold Decimal.scanExponent
    dsimp only
    by_cases hmark : c = 'e' ∨ c = 'E'
    · rw [if_pos hmark]
      by_cases hnone : (Decimal.scanDigits (Decimal.scanSign s).2).1.isEmpty = true
      · rw [if_pos hnone]
      · rw [if_neg hnone]
        exact hdigits
    · rw [if_neg hmark]

theorem scanDecimal_suffix {s rest : List Char} {d : Decimal}
    (h : Decimal.scan s = some (d, rest)) :
    rest <:+ s := by
  simp only [Decimal.scan] at h
  split_ifs at h
  simp only [Option.some.injEq, Prod.mk.injEq] at h
  rw [← h.2]
  exact (scanExponent_suffix _).trans ((scanFraction_suffix _).trans (List.dropWhile_suffix _))

theorem dropHexMark_suffix {s hex : List Char} (h : Number.dropHexMark s = some hex) :
    hex <:+ s := by
  unfold Number.dropHexMark at h
  split at h
  · cases h
    exact (List.suffix_cons _ _).trans (List.suffix_cons _ _)
  · cases h
    exact (List.suffix_cons _ _).trans (List.suffix_cons _ _)
  · cases h

/-! ## What is left -/

section Unread

variable {α β : Type}

def unread : Except ScanStop (α × List Char) → List Char
  | .ok (_, rest) => rest
  | .error stop => stop.rest

@[simp] theorem unread_map (f : α → β) (r : Except ScanStop (α × List Char)) :
    unread (r.map fun (value, rest) ↦ (f value, rest)) = unread r := by
  cases r <;> rfl

end Unread

private theorem unread_endNumber (source : List Char) (v : Float) (rest : List Char) :
    unread (endNumber source v rest) <:+ rest := by
  unfold endNumber
  split
  · exact List.suffix_rfl
  · split_ifs
    · exact List.dropWhile_suffix _
    · exact List.suffix_rfl

theorem unread_scanNumber (s : List Char) : unread (scanNumber s) <:+ s := by
  unfold scanNumber
  split
  · rename_i hex hhex
    have hrest : hex.dropWhile Number.isHexDigit <:+ s :=
      (List.dropWhile_suffix _).trans (dropHexMark_suffix hhex)
    dsimp only
    split_ifs
    · exact hrest
    · exact (unread_endNumber _ _ _).trans hrest
  · split
    · rename_i d rest hscan
      exact (unread_endNumber _ _ _).trans (scanDecimal_suffix hscan)
    · exact List.suffix_rfl

theorem unread_scanHexEscape (n : Nat) (s : List Char) : unread (scanHexEscape n s) <:+ s := by
  unfold scanHexEscape
  dsimp only
  split
  · exact List.drop_suffix _ _
  · exact List.drop_suffix _ _

private theorem unread_scanUnicodeEscape (s : List Char) : unread (scanUnicodeEscape s) <:+ s := by
  unfold scanUnicodeEscape
  split
  · rename_i t
    dsimp only
    split
    · exact List.nil_suffix
    · rename_i c rest hrest
      have hsuffix : rest <:+ '{' :: t := by
        have hdrop := List.dropWhile_suffix (l := t) Number.isHexDigit
        rw [hrest] at hdrop
        exact ((List.suffix_cons c rest).trans hdrop).trans (List.suffix_cons '{' t)
      split <;> exact hsuffix
  · exact unread_scanHexEscape 4 _

private theorem unread_scanEscape (s : List Char) : unread (scanEscape s) <:+ s := by
  rcases s with _ | ⟨c, s⟩
  · exact List.suffix_rfl
  · refine List.IsSuffix.trans ?_ (List.suffix_cons c s)
    simp only [scanEscape]
    rcases shortEscape? c with _ | e
    · dsimp only
      split_ifs
      · rw [unread_map (fun e ↦ [e])]
        exact unread_scanHexEscape 2 s
      · rw [unread_map (fun e ↦ [e])]
        exact unread_scanUnicodeEscape s
      · exact List.suffix_rfl
      · split
        · exact List.suffix_cons _ _
        · exact List.suffix_rfl
      · exact List.suffix_rfl
    · exact List.suffix_rfl

private theorem unread_scanString (q : Char) (s : List Char) : unread (scanString q s) <:+ s := by
  fun_induction scanString q s with
  | case1 => exact List.suffix_rfl
  | case2 s => exact List.suffix_cons _ _
  | case3 c s => exact List.suffix_cons _ _
  | case4 s stop he =>
    have hescape := unread_scanEscape s
    rw [he] at hescape
    exact hescape.trans (List.suffix_cons _ _)
  | case5 s cs rest he _ _ ih =>
    have hescape := unread_scanEscape s
    rw [he] at hescape
    rw [unread_map (fun value ↦ cs ++ value)]
    exact (ih.trans hescape).trans (List.suffix_cons _ _)
  | case6 c s hq hline hescape ih =>
    rw [unread_map (fun value ↦ c :: value)]
    exact ih.trans (List.suffix_cons _ _)

/-- **A scanner leaves an end of the text.** -/
theorem unread_scanToken (c : Char) (s : List Char) : unread (scanToken c s) <:+ c :: s := by
  unfold scanToken
  split_ifs
  · rw [unread_map Token.Kind.number]
    exact unread_scanNumber (c :: s)
  · rw [unread_map (fun value ↦ Token.Kind.string (String.ofList value))]
    exact (unread_scanString c s).trans (List.suffix_cons c s)
  · exact (List.dropWhile_suffix _).trans (List.suffix_cons c s)
  · split
    · exact (List.drop_suffix _ _).trans (List.suffix_cons c s)
    · exact List.suffix_cons c s

theorem suffix_of_scanToken {c : Char} {s rest : List Char} {kind : Token.Kind}
    (h : scanToken c s = .ok (kind, rest)) : rest <:+ c :: s := by
  have hunread := unread_scanToken c s
  rwa [h] at hunread

/-! ## Offsets

The width of what was read and the width of the rest make up the width of the text. An offset that
is put on a token is the width of what stands in front of it, so it is never larger than the width
of the text. -/

theorem consumed_append {s rest : List Char} (h : rest <:+ s) : consumed s rest ++ rest = s := by
  obtain ⟨read, rfl⟩ := h
  rw [consumed, List.length_append, Nat.add_sub_cancel, List.take_left]

theorem width_of_token {s t rest : List Char} {c : Char} {kind : Token.Kind} (offset : Nat)
    (h : s.dropWhile isBlank = c :: t) (hscan : scanToken c t = .ok (kind, rest)) :
    tokenStart offset s + width (consumed (c :: t) rest) + width rest = offset + width s := by
  have hread : width (consumed (c :: t) rest) + width rest = width (c :: t) := by
    rw [← Text.width_append, consumed_append (suffix_of_scanToken hscan)]
  have hs : width (s.takeWhile isBlank) + width (c :: t) = width s := by
    rw [← Text.width_append, ← h, List.takeWhile_append_dropWhile]
  rw [tokenStart]
  omega

variable {offset : Nat} {s : List Char} {l : Lexed}

theorem stop_of_tokensFrom (h : tokensFrom offset s = .ok l) : l.stop = offset + width s := by
  refine tokensFrom_induction (motive := fun offset s l ↦ l.stop = offset + width s) ?_ ?_ h
  · intro offset s hs
    have hall : s.takeWhile isBlank = s :=
      List.takeWhile_eq_self_iff.mpr (List.dropWhile_eq_nil_iff.mp hs)
    rw [hall]
  · intro offset s c t kind rest l hs hscan _ ih
    rw [Lexed.cons, ih, width_of_token offset hs hscan]

def EndsWithin (n : Nat) (ts : List Token) : Prop := ∀ t ∈ ts, t.span.stop ≤ n

theorem EndsWithin.left {n : Nat} {ts us : List Token} (h : EndsWithin n (ts ++ us)) :
    EndsWithin n ts := fun t ht ↦ h t (List.mem_append_left us ht)

theorem EndsWithin.right {n : Nat} {ts us : List Token} (h : EndsWithin n (ts ++ us)) :
    EndsWithin n us := fun t ht ↦ h t (List.mem_append_right ts ht)

theorem EndsWithin.tail {n : Nat} {t : Token} {ts : List Token} (h : EndsWithin n (t :: ts)) :
    EndsWithin n ts := fun u hu ↦ h u (List.mem_cons_of_mem t hu)

/-- **No token ends behind its text.** -/
theorem endsWithin_of_tokensFrom (h : tokensFrom offset s = .ok l) :
    EndsWithin (offset + width s) l.tokens := by
  refine tokensFrom_induction
    (motive := fun offset s l ↦ EndsWithin (offset + width s) l.tokens) ?_ ?_ h
  · exact fun _ _ _ t ht ↦ absurd ht List.not_mem_nil
  · intro offset s c t kind rest l hs hscan _ ih u hu
    rw [width_of_token offset hs hscan] at ih
    rcases List.mem_cons.mp hu with rfl | hu
    · show tokenStart offset s + width (consumed (c :: t) rest) ≤ offset + width s
      rw [← width_of_token offset hs hscan]
      exact Nat.le_add_right _ _
    · exact ih u hu

end HtmlTemplate.Expr

import HtmlTemplate.Proofs.Expr.Lexemes

/-!
# Tokens of a text that goes on

The tokens of a text are those of its beginning, up to a break, and then those of what follows,
moved to where that stands. So two sources that are joined by a plus have the tokens of both, with
the plus between them (`tokensFrom_joined`).

## Offsets

The tokens of a text are counted from an offset, and with another offset they are the same tokens,
moved. So everything that is put together from tokens is stated with `Lexed.shift`, and a text is
lexed from offset zero unless something stands in front of it.
-/

namespace HtmlTemplate.Expr

open Text (isBlank width)

/-! ## Moving tokens -/

def Span.shift (d : Nat) (s : Span) : Span := ⟨s.start + d, s.stop + d⟩

def Token.shift (d : Nat) (t : Token) : Token := ⟨t.kind, t.span.shift d⟩

def Lexed.shift (d : Nat) (l : Lexed) : Lexed := ⟨l.tokens.map (Token.shift d), l.stop + d⟩

def Lexed.cons (t : Token) (l : Lexed) : Lexed := ⟨t :: l.tokens, l.stop⟩

def Lexed.append (l m : Lexed) : Lexed := ⟨l.tokens ++ m.tokens, m.stop⟩

def Lexed.kinds (l : Lexed) : List Token.Kind := l.tokens.map Token.kind

theorem kinds_append (l m : Lexed) : (l.append m).kinds = l.kinds ++ m.kinds := List.map_append

theorem kinds_shift (d : Nat) (l : Lexed) : (l.shift d).kinds = l.kinds := by
  rw [Lexed.kinds, Lexed.shift, List.map_map]
  rfl

/-! ## One step of lexing

A text is blank, or it has a token in front, or it fails at its first lexeme. These are the cases of
every induction on the tokens of a text. -/

variable {offset : Nat} {s t rest : List Char} {c : Char} {kind : Token.Kind}

theorem tokensFrom_of_blank (offset : Nat) (h : s.dropWhile isBlank = []) :
    tokensFrom offset s = .ok ⟨[], offset + width (s.takeWhile isBlank)⟩ := by
  rw [tokensFrom]
  split
  · rfl
  · rename_i h'
    rw [h] at h'
    cases h'

def tokenStart (offset : Nat) (s : List Char) : Nat := offset + width (s.takeWhile isBlank)

theorem tokensFrom_of_token (offset : Nat) (h : s.dropWhile isBlank = c :: t)
    (hscan : scanToken c t = .ok (kind, rest)) :
    tokensFrom offset s =
      (tokensFrom (tokenStart offset s + width (consumed (c :: t) rest)) rest).map
        (Lexed.cons ⟨kind, tokenStart offset s,
          tokenStart offset s + width (consumed (c :: t) rest)⟩) := by
  rw [tokensFrom]
  split
  · rename_i h'
    rw [h] at h'
    cases h'
  · rename_i h'
    rw [h] at h'
    cases h'
    split
    · rename_i hscan'
      rw [hscan] at hscan'
      cases hscan'
    · rename_i hscan'
      rw [hscan] at hscan'
      cases hscan'
      rfl

theorem tokensFrom_eq_cons {ts : List Token} {n stop : Nat} (h : s.dropWhile isBlank = c :: t)
    (hscan : scanToken c t = .ok (kind, rest))
    (hn : tokenStart offset s + width (consumed (c :: t) rest) = n)
    (hrest : tokensFrom n rest = .ok ⟨ts, stop⟩) :
    tokensFrom offset s = .ok ⟨⟨kind, tokenStart offset s, n⟩ :: ts, stop⟩ := by
  rw [tokensFrom_of_token offset h hscan, hn, hrest]
  rfl

theorem tokensFrom_of_stop {stop : ScanStop} (offset : Nat) (h : s.dropWhile isBlank = c :: t)
    (hscan : scanToken c t = .error stop) :
    tokensFrom offset s = .error ⟨stop.fault, tokenStart offset s,
      tokenStart offset s + width (consumed (c :: t) stop.rest)⟩ := by
  rw [tokensFrom]
  split
  · rename_i h'
    rw [h] at h'
    cases h'
  · rename_i h'
    rw [h] at h'
    cases h'
    split
    · rename_i hscan'
      rw [hscan] at hscan'
      cases hscan'
      rfl
    · rename_i hscan'
      rw [hscan] at hscan'
      cases hscan'

theorem tokensFrom_single (hc : isBlank c = false) (hscan : scanToken c t = .ok (kind, [])) :
    tokensFrom 0 (c :: t) = .ok ⟨[⟨kind, 0, width (c :: t)⟩], width (c :: t)⟩ := by
  have hblank : ¬ isBlank c = true := by rw [hc]; exact Bool.false_ne_true
  have hstart : tokenStart 0 (c :: t) = 0 := by
    rw [tokenStart, List.takeWhile_cons_of_neg hblank]
    rfl
  have hconsumed : consumed (c :: t) [] = c :: t := List.take_length
  rw [tokensFrom_of_token 0 (List.dropWhile_cons_of_neg hblank) hscan, hstart, hconsumed,
    tokensFrom_of_blank _ rfl, Nat.zero_add]
  rfl

/-- Induction on a text that has tokens: it is blank, or it has a token in front. -/
theorem tokensFrom_induction {motive : Nat → List Char → Lexed → Prop}
    (blank : ∀ offset s, s.dropWhile isBlank = [] →
      motive offset s ⟨[], offset + width (s.takeWhile isBlank)⟩)
    (token : ∀ offset s c t kind rest l, s.dropWhile isBlank = c :: t →
      scanToken c t = .ok (kind, rest) →
      tokensFrom (tokenStart offset s + width (consumed (c :: t) rest)) rest = .ok l →
      motive (tokenStart offset s + width (consumed (c :: t) rest)) rest l →
      motive offset s (l.cons ⟨kind, tokenStart offset s,
        tokenStart offset s + width (consumed (c :: t) rest)⟩))
    {offset : Nat} {s : List Char} {l : Lexed} (h : tokensFrom offset s = .ok l) :
    motive offset s l := by
  fun_induction tokensFrom offset s generalizing l with
  | case1 offset s start =>
    rename_i hs
    cases h
    exact blank offset s hs
  | case2 => cases h
  | case3 offset s start c t hs kind rest hscan stop =>
    rename_i ih
    obtain ⟨m, hm, rfl⟩ := map_eq_ok_iff.mp h
    exact token offset s c t kind rest m hs hscan hm (ih hm)

theorem tokensFrom_shift {l : Lexed} (d : Nat) (h : tokensFrom offset s = .ok l) :
    tokensFrom (offset + d) s = .ok (l.shift d) := by
  refine tokensFrom_induction
    (motive := fun offset s l ↦ tokensFrom (offset + d) s = .ok (l.shift d)) ?_ ?_ h
  · intro offset s hs
    rw [tokensFrom_of_blank _ hs, Nat.add_right_comm]
    rfl
  · intro offset s c t kind rest l hs hscan hrest ih
    have hstart : tokenStart (offset + d) s = tokenStart offset s + d := Nat.add_right_comm _ _ _
    rw [tokensFrom_of_token _ hs hscan, hstart, Nat.add_right_comm, ih]
    rfl

/-- Whether a text has tokens does not depend on where it stands. -/
theorem exists_tokensFrom {l : Lexed} (h : tokensFrom offset s = .ok l) (offset' : Nat) :
    ∃ m, tokensFrom offset' s = .ok m := by
  refine tokensFrom_induction
    (motive := fun _ s _ ↦ ∀ offset', ∃ m, tokensFrom offset' s = .ok m) ?_ ?_ h offset'
  · exact fun _ s hs offset' ↦ ⟨_, tokensFrom_of_blank offset' hs⟩
  · intro _ s c t kind rest l hs hscan _ ih offset'
    obtain ⟨m, hm⟩ := ih (tokenStart offset' s + width (consumed (c :: t) rest))
    exact ⟨_, by rw [tokensFrom_of_token offset' hs hscan, hm]; rfl⟩

/-! ## Texts that go on -/

theorem tokensFrom_blank_append (offset : Nat) (hs : s.dropWhile isBlank = []) (t : List Char) :
    tokensFrom offset (s ++ t) = tokensFrom (offset + width s) t := by
  have hblank := List.dropWhile_eq_nil_iff.mp hs
  have htake : (s ++ t).takeWhile isBlank = s ++ t.takeWhile isBlank :=
    List.takeWhile_append_of_pos hblank
  have hdrop : (s ++ t).dropWhile isBlank = t.dropWhile isBlank :=
    List.dropWhile_append_of_pos hblank
  have hstart : tokenStart offset (s ++ t) = tokenStart (offset + width s) t := by
    rw [tokenStart, tokenStart, htake, Text.width_append, Nat.add_assoc]
  rcases ht : t.dropWhile isBlank with _ | ⟨c, u⟩
  · rw [tokensFrom_of_blank _ ht, tokensFrom_of_blank _ (hdrop.trans ht), htake, Text.width_append,
      Nat.add_assoc]
  · rcases hscan : scanToken c u with stop | ⟨kind, rest⟩
    · rw [tokensFrom_of_stop _ ht hscan, tokensFrom_of_stop _ (hdrop.trans ht) hscan, hstart]
    · rw [tokensFrom_of_token _ ht hscan, tokensFrom_of_token _ (hdrop.trans ht) hscan, hstart]

/-- **The tokens of a text up to a break do not depend on what follows**, and what follows is lexed
from there on. -/
theorem tokensFrom_append {x : Char} {l : Lexed} (t : List Char) (hx : IsBreak x)
    (h : tokensFrom offset s = .ok l) :
    tokensFrom offset (s ++ x :: t) = (tokensFrom l.stop (x :: t)).map l.append := by
  refine tokensFrom_induction (motive := fun offset s l ↦
    tokensFrom offset (s ++ x :: t) = (tokensFrom l.stop (x :: t)).map l.append) ?_ ?_ h
  · intro offset s hs
    have hall : s.takeWhile isBlank = s :=
      List.takeWhile_eq_self_iff.mpr (List.dropWhile_eq_nil_iff.mp hs)
    rw [tokensFrom_blank_append _ hs, hall]
    rcases tokensFrom (offset + width s) (x :: t) with err | m <;> rfl
  · intro offset s c t' kind rest l hs hscan hrest ih
    obtain ⟨htake, hdrop⟩ := Text.takeWhile_append_of_dropWhile (x :: t) hs
    have hstart : tokenStart offset (s ++ x :: t) = tokenStart offset s := by
      rw [tokenStart, htake, tokenStart]
    have hconsumed : consumed (c :: (t' ++ x :: t)) (rest ++ x :: t) = consumed (c :: t') rest := by
      rw [consumed, consumed, ← List.cons_append, List.length_append, List.length_append,
        Nat.add_sub_add_right, List.take_append_of_le_length (Nat.sub_le _ _)]
    rw [tokensFrom_of_token _ hdrop (scanToken_append t hx hscan), hstart, hconsumed, ih]
    dsimp only [Lexed.cons]
    rcases tokensFrom l.stop (x :: t) with err | m <;> rfl

/-! ## Punctuation, and a plus

Most marks are tokens for themselves whatever follows, so the text behind one has its own tokens. -/

/-- A punctuation mark is scanned, unless a number, a string or a name begins with its first
character. -/
theorem scanToken_of_inFront? {c : Char} {s : List Char} {p : Punct}
    (hc : (c.isDigit || c = '.' || c = '"' || c = '\x27' || isNameStart c) = false)
    (h : Punct.inFront? (c :: s) = some p) :
    scanToken c s = .ok (.punct p, s.drop (p.text.length - 1)) := by
  simp only [Bool.or_eq_false_iff, decide_eq_false_iff_not] at hc
  obtain ⟨⟨⟨⟨hdigit, hpoint⟩, hquote⟩, happ⟩, hname⟩ := hc
  rw [scanToken, hdigit, if_neg (by simp [hpoint]), if_neg (not_or.mpr ⟨hquote, happ⟩), hname,
    if_neg Bool.false_ne_true, h]

private theorem scanToken_plus (s : List Char) : scanToken '+' s = .ok (.punct .plus, s) :=
  scanToken_of_inFront? (by decide) rfl

/-- A mark of one byte in front, that is a token for itself whatever follows. -/
theorem tokensFrom_mark {c : Char} {p : Punct} (offset : Nat) (s : List Char)
    (hblank : isBlank c = false) (hwidth : width [c] = 1)
    (hscan : scanToken c s = .ok (.punct p, s)) :
    tokensFrom offset (c :: s) = (tokensFrom (offset + 1) s).map
      (Lexed.cons ⟨.punct p, offset, offset + 1⟩) := by
  have hconsumed : consumed (c :: s) s = [c] := by
    rw [consumed, List.length_cons, Nat.add_sub_cancel_left]
    rfl
  have hstart : tokenStart offset (c :: s) = offset := by
    rw [tokenStart, List.takeWhile_cons_of_neg (by rw [hblank]; exact Bool.false_ne_true)]
    rfl
  rw [tokensFrom_of_token offset
    (List.dropWhile_cons_of_neg (by rw [hblank]; exact Bool.false_ne_true))
    hscan, hconsumed, hstart, hwidth]

theorem tokensFrom_plus (offset : Nat) (s : List Char) :
    tokensFrom offset ('+' :: s) = (tokensFrom (offset + 1) s).map
      (Lexed.cons ⟨.punct .plus, offset, offset + 1⟩) :=
  tokensFrom_mark offset s rfl rfl (scanToken_plus s)

/-- **Two sources joined by a plus have the tokens of both**, with the plus between them. -/
theorem tokensFrom_joined {s r : List Char} {l m : Lexed} (hs : tokensFrom 0 s = .ok l)
    (hr : tokensFrom 0 r = .ok m) :
    tokensFrom 0 (s ++ '+' :: r) =
      .ok ⟨l.tokens ++ ⟨.punct .plus, l.stop, l.stop + 1⟩ ::
        m.tokens.map (Token.shift (l.stop + 1)), m.stop + (l.stop + 1)⟩ := by
  have hmoved := tokensFrom_shift (l.stop + 1) hr
  rw [Nat.zero_add] at hmoved
  rw [tokensFrom_append r isBreak_plus hs, tokensFrom_plus, hmoved]
  rfl

/-- If the first of two joined sources has tokens for itself, so has the second. -/
theorem exists_tokensFrom_of_joined {s r : List Char} {l m : Lexed} (hs : tokensFrom 0 s = .ok l)
    (h : tokensFrom 0 (s ++ '+' :: r) = .ok m) : ∃ n, tokensFrom 0 r = .ok n := by
  rw [tokensFrom_append r isBreak_plus hs, tokensFrom_plus] at h
  obtain ⟨m', hm', -⟩ := map_eq_ok_iff.mp h
  obtain ⟨n, hn, -⟩ := map_eq_ok_iff.mp hm'
  exact exists_tokensFrom hn 0

end HtmlTemplate.Expr

import HtmlTemplate.Proofs.Expr.Tokens

/-!
# Texts in braces

The tokens of a text with a part in braces are those of what stands before the braces, of what
stands in them and of what stands behind them, each for itself. A text that is one name has that
name as its only token.

## Where tokens end

A token may go on into what stands behind it, unless that begins with a character that no token of
the kind goes on with. A brace breaks every token, and so does a colon, so a text up to a brace has
its tokens for itself, and what stands in the braces has its own. Nothing is needed of what stands
behind the closing brace but that it has tokens.
-/

namespace HtmlTemplate.Expr

open Text (isBlank width)

/-! ## Names

A text is a name if it begins as one and goes on as one. That it has one token, and which, does not
depend on where it stands. -/

/-- Is the text a name? -/
def IsName (text : String) : Prop :=
  ∃ c cs, text.toList = c :: cs ∧ isNameStart c = true ∧ cs.all isNamePart = true

private theorem isNameStart_of_isDigit {c : Char} (h : c.isDigit = true) :
    isNameStart c = false := by
  have hnumbers : ∀ n ∈ List.range' 48 10, isNameStart (Char.ofNat n) = false := by decide +kernel
  rw [← Char.ofNat_toNat c]
  refine hnumbers _ (List.mem_range'_1.mpr ?_)
  simp only [Char.isDigit, Bool.and_eq_true, decide_eq_true_eq, UInt32.le_iff_toNat_le] at h
  exact ⟨h.1, Nat.lt_succ_of_le h.2⟩

private theorem scanToken_of_isNameStart {c : Char} (s : List Char) (h : isNameStart c = true) :
    scanToken c s = .ok (.name (String.ofList (c :: s.takeWhile isNamePart)),
      s.dropWhile isNamePart) := by
  have hne (d : Char) (hd : isNameStart d = false) : c ≠ d := by
    rintro rfl
    exact Bool.noConfusion (h.symm.trans hd)
  have hdigit : c.isDigit = false := by
    by_contra hdigit
    exact hne c (isNameStart_of_isDigit (by simpa using hdigit)) rfl
  have hpoint : c ≠ '.' := hne _ rfl
  have hquote : ¬(c = '"' ∨ c = '\x27') :=
    not_or.mpr ⟨hne _ rfl, hne _ rfl⟩
  rw [scanToken, hdigit, if_neg (by simp [hpoint]), if_neg hquote, if_pos h]

private theorem isBlank_of_isNameStart {c : Char} (h : isNameStart c = true) :
    isBlank c = false := by
  by_contra hblank
  have hpart := isNamePart_of_isBlank (by simpa using hblank)
  rw [isNamePart, h, Bool.true_or] at hpart
  cases hpart

theorem IsName.exists_tokensFrom {text : String} (h : IsName text) :
    ∃ l, tokensFrom 0 text.toList = .ok l ∧ l.kinds = [.name text] := by
  obtain ⟨c, cs, htext, hstart, hparts⟩ := h
  have hscan := scanToken_of_isNameStart cs hstart
  rw [List.takeWhile_eq_self_iff.mpr (List.all_eq_true.mp hparts),
    List.dropWhile_eq_nil_iff.mpr (List.all_eq_true.mp hparts), ← htext,
    String.ofList_toList] at hscan
  rw [htext]
  exact ⟨_, tokensFrom_single (isBlank_of_isNameStart hstart) hscan, rfl⟩

/-! ## Braces -/

theorem isBreak_leftBrace : IsBreak '{' where
  part := rfl
  point := by decide
  punct p := by cases p <;> decide

theorem isBreak_rightBrace : IsBreak '}' where
  part := rfl
  point := by decide
  punct p := by cases p <;> decide

theorem isBreak_colon : IsBreak ':' where
  part := rfl
  point := by decide
  punct p := by cases p <;> decide

private theorem tokensFrom_leftBrace (offset : Nat) (s : List Char) :
    tokensFrom offset ('{' :: s) = (tokensFrom (offset + 1) s).map
      (Lexed.cons ⟨.punct .leftBrace, offset, offset + 1⟩) :=
  tokensFrom_mark offset s rfl rfl (scanToken_of_inFront? rfl rfl)

private theorem tokensFrom_rightBrace (offset : Nat) (s : List Char) :
    tokensFrom offset ('}' :: s) = (tokensFrom (offset + 1) s).map
      (Lexed.cons ⟨.punct .rightBrace, offset, offset + 1⟩) :=
  tokensFrom_mark offset s rfl rfl (scanToken_of_inFront? rfl rfl)

theorem tokensFrom_colon (offset : Nat) (s : List Char) :
    tokensFrom offset (':' :: s) = (tokensFrom (offset + 1) s).map
      (Lexed.cons ⟨.punct .colon, offset, offset + 1⟩) :=
  tokensFrom_mark offset s rfl rfl (scanToken_of_inFront? rfl rfl)

variable {front s back : List Char} {l inner m : Lexed}

theorem tokensFrom_braces (hfront : tokensFrom 0 front = .ok l) (hs : tokensFrom 0 s = .ok inner)
    (back : List Char) :
    ∃ o c d n, o.kind = .punct .leftBrace ∧ c.kind = .punct .rightBrace ∧
      tokensFrom 0 (front ++ '{' :: (s ++ '}' :: back)) = (tokensFrom n back).map fun m ↦
        ⟨l.tokens ++ (o :: (inner.tokens.map (Token.shift d) ++ [c]) ++ m.tokens), m.stop⟩ := by
  have hmoved : tokensFrom (l.stop + 1) s =
      .ok ⟨inner.tokens.map (Token.shift (l.stop + 1)), inner.stop + (l.stop + 1)⟩ := by
    have h := tokensFrom_shift (l.stop + 1) hs
    rwa [Nat.zero_add] at h
  refine ⟨⟨.punct .leftBrace, l.stop, l.stop + 1⟩,
    ⟨.punct .rightBrace, inner.stop + (l.stop + 1), inner.stop + (l.stop + 1) + 1⟩,
    l.stop + 1, inner.stop + (l.stop + 1) + 1, rfl, rfl, ?_⟩
  rw [tokensFrom_append _ isBreak_leftBrace hfront, tokensFrom_leftBrace,
    tokensFrom_append _ isBreak_rightBrace hmoved, tokensFrom_rightBrace]
  rcases tokensFrom (inner.stop + (l.stop + 1) + 1) back with err | m
  · rfl
  · simp [Except.map, Lexed.append, Lexed.cons]

/-- **The tokens of a text with a part in braces.** -/
theorem exists_tokensFrom_braces (hfront : tokensFrom 0 front = .ok l)
    (hs : tokensFrom 0 s = .ok inner) (hback : tokensFrom 0 back = .ok m) :
    ∃ g us stop, tokensFrom 0 (front ++ '{' :: (s ++ '}' :: back)) =
        .ok ⟨l.tokens ++ (g ++ us), stop⟩ ∧
      g.map Token.kind = .punct .leftBrace :: (inner.kinds ++ [.punct .rightBrace]) ∧
      us.map Token.kind = m.kinds := by
  obtain ⟨o, c, d, n, ho, hc, heq⟩ := tokensFrom_braces hfront hs back
  have hmoved := tokensFrom_shift n hback
  rw [Nat.zero_add] at hmoved
  rw [hmoved] at heq
  refine ⟨_, _, _, heq, ?_, kinds_shift n m⟩
  rw [List.map_cons, List.map_append, List.map_singleton, ho, hc]
  exact congrArg (fun ks ↦ _ :: (ks ++ _)) (kinds_shift d inner)

theorem exists_tokensFrom_behind_braces (hfront : tokensFrom 0 front = .ok l)
    (hs : tokensFrom 0 s = .ok inner)
    (h : tokensFrom 0 (front ++ '{' :: (s ++ '}' :: back)) = .ok m) :
    ∃ m, tokensFrom 0 back = .ok m := by
  obtain ⟨_, _, _, _, -, -, heq⟩ := tokensFrom_braces hfront hs back
  rw [heq] at h
  obtain ⟨n, hn, -⟩ := map_eq_ok_iff.mp h
  exact exists_tokensFrom hn 0

end HtmlTemplate.Expr

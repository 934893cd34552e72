import HtmlTemplate.Proofs.Expr.Excerpts
import HtmlTemplate.Proofs.Text.Trimming

/-!
# A source is its lexemes, up to blanks

The tokens of a source stand in it one behind another, with nothing but blanks between them, so no
character is lost. What a token was read from is read as that token wherever a blank or nothing
stands around it: alone, and among the other lexemes when the source is written anew with other
blanks between them (`Lexed.IsFaithful`).

Both rest on the same fact: a lexeme that is cut out of its source is scanned to its end, and there
a break may follow.

## Where a blank is needed

Between two words at least one blank is asked for, since a name behind a name would be one name.
Between other lexemes none would be needed, but that depends on both of them, and a source that is
written anew can always have the blank.
-/

namespace HtmlTemplate.Expr

open Text (isBlank isAllBlank width)

variable {offset : Nat} {s : List Char} {l : Lexed}

/-! ## What stands between the tokens -/

theorem append_eq_append_cons {α : Type} {xs ys as bs : List α} {c : α}
    (h : xs ++ ys = as ++ c :: bs) :
    (∃ r, xs = as ++ c :: r) ∨ ∃ r, as = xs ++ r ∧ ys = r ++ c :: bs := by
  rcases List.append_eq_append_iff.mp h with ⟨r, rfl, hr⟩ | ⟨r, rfl, hr⟩
  · exact Or.inr ⟨r, rfl, hr⟩
  · rcases List.cons_eq_append_iff.mp hr with ⟨rfl, hy⟩ | ⟨r', rfl, -⟩
    · exact Or.inr ⟨[], by simp, hy⟩
    · exact Or.inl ⟨r', rfl⟩

/-- **Nothing but blanks is outside of the tokens.** -/
theorem isBlank_or_exists_token (h : tokensFrom offset s = .ok l) {a b : List Char} {c : Char}
    (hs : s = a ++ c :: b) :
    isBlank c = true ∨ ∃ t ∈ l.tokens, t.span.start ≤ offset + width a ∧
      offset + width (a ++ [c]) ≤ t.span.stop := by
  refine tokensFrom_induction (motive := fun offset s l ↦ ∀ a, s = a ++ c :: b →
    isBlank c = true ∨ ∃ t ∈ l.tokens, t.span.start ≤ offset + width a ∧
      offset + width (a ++ [c]) ≤ t.span.stop) ?_ ?_ h a hs
  · rintro offset _ hblank a rfl
    exact Or.inl (List.dropWhile_eq_nil_iff.mp hblank c (by simp))
  · intro offset s d t kind rest l hs hscan _ ih a ha
    have hread := consumed_append (suffix_of_scanToken hscan)
    rw [← List.takeWhile_append_dropWhile (p := isBlank) (l := s), hs, ← hread] at ha
    rcases append_eq_append_cons ha with ⟨r, hr⟩ | ⟨r, rfl, hr⟩
    · exact Or.inl (List.mem_takeWhile_imp (p := isBlank) (l := s) (by rw [hr]; simp))
    rcases append_eq_append_cons hr with ⟨r', hr'⟩ | ⟨r', rfl, hr'⟩
    · -- it is a character of the token
      refine Or.inr ⟨_, List.mem_cons_self, ?_, ?_⟩
      · simp only [tokenStart, Text.width_append]
        omega
      · simp only [tokenStart, hr', Text.width_append, Text.width_cons, Text.width_nil]
        omega
    · rcases ih r' hr' with hblank | ⟨u, hu, hstart, hstop⟩
      · exact Or.inl hblank
      · refine Or.inr ⟨u, List.mem_cons_of_mem _ hu, ?_, ?_⟩
        · simp only [tokenStart, Text.width_append] at hstart ⊢
          omega
        · simp only [tokenStart, Text.width_append] at hstop ⊢
          omega

/-! ## Other blanks between the lexemes

The words are texts of one token each. Which blanks stand between them, and how many, does not
matter. -/

/-- The text is the words in their order, with blanks between them, one blank at least. -/
inductive IsSpaced : List (List Char) → List Char → Prop
  | nil : IsSpaced [] []
  | last (w : List Char) : IsSpaced [w] w
  | cons {w gap s : List Char} {ws : List (List Char)} : gap ≠ [] → isAllBlank gap = true →
      IsSpaced ws s → IsSpaced (w :: ws) (w ++ (gap ++ s))

/-- **Texts of one token each have these tokens in a row**, if there are blanks between them. -/
theorem exists_tokensFrom_of_isSpaced {word : Token → List Char} {ts : List Token}
    {text : List Char} (hword : ∀ t ∈ ts, ∃ m, tokensFrom 0 (word t) = .ok m ∧ m.kinds = [t.kind])
    (htext : IsSpaced (ts.map word) text) :
    ∃ m, tokensFrom 0 text = .ok m ∧ m.kinds = ts.map Token.kind := by
  induction ts generalizing text with
  | nil =>
    cases htext
    exact ⟨_, tokensFrom_of_blank 0 rfl, rfl⟩
  | cons t ts ih =>
    obtain ⟨m, hm, hkind⟩ := hword t List.mem_cons_self
    rw [List.map_cons] at htext
    generalize hws : ts.map word = ws at htext
    cases htext with
    | last =>
      rw [List.map_eq_nil_iff] at hws
      exact ⟨m, hm, by rw [hkind, hws]; rfl⟩
    | @cons _ gap s _ hgap hblank hmore =>
      obtain ⟨n, hn, hkinds⟩ := ih (fun u hu ↦ hword u (List.mem_cons_of_mem t hu)) (hws ▸ hmore)
      have hdrop : gap.dropWhile isBlank = [] :=
        List.dropWhile_eq_nil_iff.mpr (List.all_eq_true.mp hblank)
      have hmoved := tokensFrom_shift (m.stop + width gap) hn
      rw [Nat.zero_add, ← tokensFrom_blank_append _ hdrop] at hmoved
      obtain ⟨x, gap, rfl⟩ := List.exists_cons_of_ne_nil hgap
      have hx : IsBreak x := isBreak_of_isBlank (List.all_eq_true.mp hblank x List.mem_cons_self)
      rw [List.cons_append] at hmoved ⊢
      refine ⟨_, by rw [tokensFrom_append _ hx hm, hmoved]; rfl, ?_⟩
      rw [kinds_append, kinds_shift, hkind, hkinds]
      rfl

/-! ## Sources -/

def Token.lexeme (source : String) (t : Token) : List Char :=
  Text.slice t.span.start t.span.stop source.toList

/-- Do the tokens say all that the source says, and each of them for itself? -/
structure Lexed.IsFaithful (source : String) (l : Lexed) : Prop where
  /-- No token is empty. -/
  full : ∀ t ∈ l.tokens, t.span.start < t.span.stop
  /-- Each stands in the source, from the end of one character to that of another. -/
  inside : ∀ p ∈ l.places, p.IsIn source.toList
  /-- They stand one behind another. -/
  apart : l.places.Pairwise fun p q ↦ p.stop ≤ q.start
  /-- What stands in none of them is blank. -/
  blank : ∀ a c b, source.toList = a ++ c :: b →
    isBlank c = true ∨ ∃ t ∈ l.tokens, t.span.start ≤ width a ∧ width (a ++ [c]) ≤ t.span.stop
  /-- The end marker is at the end. -/
  stop : l.stop = width source.toList
  /-- A lexeme alone has its one token. -/
  alone : ∀ t ∈ l.tokens, tokenize (String.ofList (t.lexeme source)) =
    .ok ⟨[⟨t.kind, 0, t.span.stop - t.span.start⟩], t.span.stop - t.span.start⟩
  /-- With other blanks between them the lexemes have the same tokens. -/
  spaced : ∀ text, IsSpaced (l.tokens.map (Token.lexeme source)) text →
    ∃ m, tokenize (String.ofList text) = .ok m ∧ m.kinds = l.kinds

/-- **Tokens are faithful to their source.** -/
theorem isFaithful_of_tokenize {source : String} {lexed : Lexed} (h : tokenize source = .ok lexed) :
    lexed.IsFaithful source where
  full := start_lt_stop_of_mem h
  inside := isIn_of_mem_places [] h
  apart := pairwise_places_apart h
  blank a c b hs := by
    have hcovered := isBlank_or_exists_token h hs
    rwa [Nat.zero_add, Nat.zero_add] at hcovered
  stop := by rw [stop_of_tokensFrom h, Nat.zero_add]
  alone t ht := by
    rw [tokenize, String.toList_ofList]
    exact tokensFrom_lexeme h ht
  spaced text htext := by
    rw [tokenize, String.toList_ofList]
    refine exists_tokensFrom_of_isSpaced (fun t ht ↦ ?_) htext
    exact ⟨_, tokensFrom_lexeme h ht, rfl⟩

/-- A point is part of a number if a digit follows, and a mark of its own otherwise. -/
theorem isFaithful_of_tokenize_point :
    ∃ l, tokenize "a ?.5:b.c" = .ok l ∧
      l.kinds =
        [.name "a", .punct .question, .number (Number.Decimal.toFloat ⟨5, -1⟩), .punct .colon,
        .name "b", .punct .dot, .name "c"] ∧
      l.IsFaithful "a ?.5:b.c" := by
  have htokens : tokenize "a ?.5:b.c" = .ok ⟨[⟨.name "a", 0, 1⟩, ⟨.punct .question, 2, 3⟩,
      ⟨.number (Number.Decimal.toFloat ⟨5, -1⟩), 3, 5⟩, ⟨.punct .colon, 5, 6⟩, ⟨.name "b", 6, 7⟩,
      ⟨.punct .dot, 7, 8⟩, ⟨.name "c", 8, 9⟩], 9⟩ := by
    refine tokensFrom_eq_cons (s := "a ?.5:b.c".toList) rfl rfl rfl ?_
    iterate 6 refine tokensFrom_eq_cons rfl rfl rfl ?_
    exact tokensFrom_of_blank 9 rfl
  exact ⟨_, htokens, rfl, isFaithful_of_tokenize htokens⟩

end HtmlTemplate.Expr

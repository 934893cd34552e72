import HtmlTemplate.Proofs.Markup.Styles

/-!
# Effective declarations

A browser separates the declarations of a style text at the semicolons that stand outside of quotes
and parentheses, and of several declarations of a property the last one is effective. `Style.parse`
separates at every semicolon, and `Style.set` changes the first declaration of a property.

Both come to the same where every part between two semicolons closes the quotes and parentheses that
it opens (`Css.declarations_eq_parse`). In such a text a property that is declared at most once has
afterwards the value it was set to, and no other property changes. For a text that holds a data URL,
or declares the property twice, this fails.

## Two readers of one text

The reader of a browser is defined here for itself, from a text to its declarations, with the quotes
and parentheses that are open as its state. A part that closes what it opens leads the state back to
where it was, and then the next semicolon separates for both readers. Only marks change the state,
so what setting a property writes between the parts, and the spelling of a property, do not matter
to it.
-/

namespace HtmlTemplate.Css

open Text (sameAsciiLetters)

/-! ## Quotes and parentheses -/

/-- The two kinds of quotes. -/
inductive Quote
  | single
  | double
deriving DecidableEq

def Quote.ofChar? (c : Char) : Option Quote :=
  if c = '\'' then some .single else if c = '"' then some .double else none

/-- A place in a style text: the quote it stands in and the number of open parentheses around it. -/
structure Place where
  quote : Option Quote := none
  depth : Nat := 0
deriving DecidableEq

/-- The place behind a character. Inside of quotes only the same quote counts. -/
def Place.next (p : Place) (c : Char) : Place :=
  match p.quote with
  | some q => if Quote.ofChar? c = some q then { p with quote := none } else p
  | none =>
    match Quote.ofChar? c with
    | some q => { p with quote := some q }
    | none =>
      if c = '(' then { p with depth := p.depth + 1 }
      else if c = ')' then { p with depth := p.depth - 1 } else p

/-- The parts of a text from a place on, between semicolons outside of quotes and parentheses. -/
def partsFrom (p : Place) : List Char → List (List Char)
  | [] => [[]]
  | c :: s =>
    if c = ';' ∧ p = {} then [] :: partsFrom p s
    else (partsFrom (p.next c) s).modifyHead (c :: ·)

def declarations (style : String) : List Declaration :=
  (partsFrom {} style.toList).filterMap Style.declaration?

/-- The value of a property in a style text: that of its last declaration. -/
def effective? (style property : String) : Option String :=
  Style.get? (declarations style).reverse property

/-- Does a part of a style text close the quotes and parentheses that it opens? -/
def IsClosed (part : List Char) : Prop := part.foldl Place.next {} = {}

instance : DecidablePred IsClosed := fun part ↦
  inferInstanceAs (Decidable (part.foldl Place.next {} = {}))

/-- Does every part between two semicolons close what it opens? -/
def HasClosedParts (style : String) : Prop := ∀ part ∈ style.toList.splitOn ';', IsClosed part

instance : DecidablePred HasClosedParts := fun style ↦
  inferInstanceAs (Decidable (∀ part ∈ style.toList.splitOn ';', IsClosed part))

variable {style : String} {d : Declaration} {ds : List Declaration} {p v : String}

/-- From a place that the first part leads out of, the parts are those between all semicolons. The
place is any one, because the induction goes on inside of a part. -/
theorem partsFrom_eq {place : Place} {s first : List Char} {rest : List (List Char)}
    (hs : s.splitOn ';' = first :: rest) (hfirst : first.foldl Place.next place = {})
    (hrest : ∀ part ∈ rest, IsClosed part) : partsFrom place s = first :: rest := by
  induction s generalizing place first rest with
  | nil =>
    cases hs
    rfl
  | cons c s ih =>
    obtain ⟨part, parts, hparts⟩ := List.exists_cons_of_ne_nil (List.splitOn_ne_nil ';' s)
    rw [List.splitOn_cons_eq_if_modifyHead, hparts] at hs
    by_cases hc : c = ';'
    · subst hc
      cases hs
      obtain rfl : place = {} := hfirst
      have hpart : IsClosed part := hrest part List.mem_cons_self
      rw [partsFrom, if_pos ⟨rfl, rfl⟩,
        ih hparts hpart fun q hq ↦ hrest q (List.mem_cons_of_mem _ hq)]
    · rw [if_neg fun he ↦ hc (eq_of_beq he)] at hs
      cases hs
      rw [partsFrom, if_neg fun h ↦ hc h.1, ih hparts hfirst hrest, List.modifyHead_cons]

/-- **Where every part closes what it opens, both readings find the same declarations.** -/
theorem declarations_eq_parse (h : HasClosedParts style) :
    declarations style = Style.parse style := by
  obtain ⟨first, rest, hs⟩ := List.exists_cons_of_ne_nil (List.splitOn_ne_nil ';' style.toList)
  have hclosed : ∀ part ∈ first :: rest, IsClosed part := hs ▸ h
  obtain ⟨hfirst, hrest⟩ := List.forall_mem_cons.mp hclosed
  rw [declarations, Style.parse, Text.pieces_singleton, hs, partsFrom_eq hs hfirst hrest]

/-! ## Marks -/

def isMark (c : Char) : Bool := c == '\'' || c == '"' || c == '(' || c == ')'

theorem isMark_iff {c : Char} : isMark c = true ↔ c = '\'' ∨ c = '"' ∨ c = '(' ∨ c = ')' := by
  simp [isMark, or_assoc]

private theorem next_of_not_isMark {c : Char} (place : Place) (h : isMark c = false) :
    place.next c = place := by
  simp only [isMark, Bool.or_eq_false_iff, beq_eq_false_iff_ne] at h
  obtain ⟨⟨⟨hsingle, hdouble⟩, hopen⟩, hclose⟩ := h
  have hquote : Quote.ofChar? c = none := by
    rw [Quote.ofChar?, if_neg hsingle, if_neg hdouble]
  rw [Place.next, hquote]
  cases place.quote with
  | none => simp only [if_neg hopen, if_neg hclose]
  | some q => rfl

theorem foldl_next_filter (place : Place) (s : List Char) :
    (s.filter isMark).foldl Place.next place = s.foldl Place.next place := by
  induction s generalizing place with
  | nil => rfl
  | cons c s ih =>
    by_cases hc : isMark c = true
    · rw [List.filter_cons_of_pos hc, List.foldl_cons, List.foldl_cons, ih]
    · rw [List.filter_cons_of_neg hc, List.foldl_cons, ih,
        next_of_not_isMark _ (Bool.not_eq_true _ ▸ hc)]

theorem IsClosed.of_filter {s t : List Char} (hs : IsClosed s)
    (h : t.filter isMark = s.filter isMark) : IsClosed t := by
  rw [IsClosed, ← foldl_next_filter, h, foldl_next_filter]
  exact hs

theorem isMark_of_isBlank (c : Char) (h : Text.isBlank c = true) : isMark c = false := by
  refine Bool.eq_false_iff.mpr fun hmark ↦ ?_
  rcases isMark_iff.mp hmark with rfl | rfl | rfl | rfl <;> exact absurd h (by decide)

private theorem isMark_of_letter {c : Char} (h : 65 ≤ c.toNat) : isMark c = false := by
  refine Bool.eq_false_iff.mpr fun hmark ↦ ?_
  rcases isMark_iff.mp hmark with rfl | rfl | rfl | rfl <;> exact absurd h (by decide)

private theorem isMark_toLower (c : Char) : isMark c.toLower = isMark c := by
  by_cases h : c.isUpper = true
  · -- neither the capital nor the small letter is a mark
    have hlower := Text.toNat_toLower h
    have hupper := Text.isUpper_iff.mp h
    rw [isMark_of_letter (by omega), isMark_of_letter (by omega)]
  · rw [Text.toLower_of_not_isUpper (Bool.not_eq_true _ ▸ h)]

private theorem any_isMark_lowerAscii (s : List Char) :
    (Text.lowerAscii s).any isMark = s.any isMark := by
  simp only [Text.lowerAscii, List.any_map, Function.comp_def, isMark_toLower]

theorem any_isMark_of_sameAsciiLetters {s t : String} (h : sameAsciiLetters s t = true) :
    s.toList.any isMark = t.toList.any isMark := by
  rw [← any_isMark_lowerAscii, eq_of_beq h, any_isMark_lowerAscii]

/-! ## The text that is written

Declarations are written from what was read, with new separators between them. -/

theorem filter_isMark_chars (d : Declaration) : d.chars.filter isMark =
    d.property.toList.filter isMark ++ d.value.toList.filter isMark := by
  rw [Declaration.chars, List.filter_append, List.filter_cons_of_neg (by decide),
    List.filter_cons_of_neg (by decide)]

theorem isClosed_chars_of_declaration? {part : List Char} (hpart : IsClosed part)
    (h : Style.declaration? part = some d) : IsClosed d.chars := by
  obtain ⟨name, value, rfl, -, -, rfl⟩ := Style.exists_append_of_declaration? h
  refine hpart.of_filter ?_
  rw [filter_isMark_chars, String.toList_ofList, String.toList_ofList,
    Text.filter_trim isMark_of_isBlank, Text.filter_trim isMark_of_isBlank, List.filter_append,
    List.filter_cons_of_neg (by decide)]

theorem isClosed_chars_of_mem_parse (h : HasClosedParts style) (hd : d ∈ Style.parse style) :
    IsClosed d.chars := by
  rw [Style.parse, Text.pieces_singleton] at hd
  obtain ⟨part, hpart, hdecl⟩ := List.mem_filterMap.mp hd
  exact isClosed_chars_of_declaration? (h part hpart) hdecl

/-- The style text of declarations without open marks has no open marks in its parts. -/
theorem hasClosedParts_text (hplain : ∀ d ∈ ds, d.IsPlain) (hclosed : ∀ d ∈ ds, IsClosed d.chars) :
    HasClosedParts (Style.text ds) := by
  induction ds with
  | nil => decide +kernel
  | cons d ds ih =>
    obtain ⟨hd, hds⟩ := List.forall_mem_cons.mp hplain
    obtain ⟨hdc, hdsc⟩ := List.forall_mem_cons.mp hclosed
    obtain ⟨gap, hgap, hparts⟩ := Style.exists_splitOn_text_cons hd ds
    obtain ⟨part, parts, htext, hgapped⟩ := Style.exists_splitOn_append (Style.text ds).toList hgap
    have hclosed' := ih hds hdsc
    rw [HasClosedParts, htext] at hclosed'
    obtain ⟨hpart, hrest⟩ := List.forall_mem_cons.mp hclosed'
    rw [HasClosedParts, hparts, hgapped]
    refine List.forall_mem_cons.mpr ⟨hdc, List.forall_mem_cons.mpr ⟨hpart.of_filter ?_, hrest⟩⟩
    rw [List.filter_append, Text.filter_of_isAllBlank isMark_of_isBlank hgap, List.nil_append]

theorem isClosed_chars_of_mem_set (hds : ∀ d ∈ ds, IsClosed d.chars)
    (hp : p.toList.any isMark = false) (hv : v.toList.any isMark = false)
    (h : d ∈ Style.set p v ds) : IsClosed d.chars := by
  rcases Style.mem_set h with h | ⟨d₀, -, hsame, rfl⟩
  · exact hds d h
  · -- whatever its spelling, the property has no marks
    have hd₀ := (any_isMark_of_sameAsciiLetters hsame).trans hp
    have hnil : (Declaration.chars { d₀ with value := v }).filter isMark = [] := by
      rw [filter_isMark_chars, List.filter_eq_nil_iff.mpr (List.any_eq_false.mp hd₀),
        List.filter_eq_nil_iff.mpr (List.any_eq_false.mp hv), List.append_nil]
    exact IsClosed.of_filter (s := []) rfl hnil

/-! ## The effective value of a property that was set -/

private theorem get?_append (l r : List Declaration) (q : String) :
    Style.get? (l ++ r) q = (Style.get? l q).or (Style.get? r q) := by
  rw [Style.get?, List.find?_append]
  cases h : l.find? fun d ↦ sameAsciiLetters d.property q <;> simp [Style.get?, h]

private theorem get?_eq_none (h : ∀ d ∈ ds, sameAsciiLetters d.property p = false) :
    Style.get? ds p = none := by
  rw [Style.get?, List.find?_eq_none.mpr (by simpa using h), Option.map_none]

theorem get?_reverse_set (honce : ds.countP (fun d ↦ sameAsciiLetters d.property p) ≤ 1)
    (v q : String) : Style.get? (Style.set p v ds).reverse q =
      if sameAsciiLetters p q then some v else Style.get? ds.reverse q := by
  rcases Style.set_cases p v ds with ⟨-, hset⟩ | ⟨l, d, r, rfl, hd, -, hset⟩
  · rw [hset, List.reverse_append, List.reverse_singleton, List.singleton_append, Style.get?_cons]
  · -- the declaration that was changed is the only one of the property
    have hr : ∀ d' ∈ r, sameAsciiLetters d'.property p = false := by
      rw [List.countP_append, List.countP_cons_of_pos (by exact hd)] at honce
      have hzero : r.countP (fun d ↦ sameAsciiLetters d.property p) = 0 := by omega
      simpa using List.countP_eq_zero.mp hzero
    have hsame : sameAsciiLetters d.property q = sameAsciiLetters p q := by
      rw [sameAsciiLetters, eq_of_beq hd, ← sameAsciiLetters]
    rw [hset, List.reverse_append, List.reverse_append, List.reverse_cons, List.reverse_cons,
      List.append_assoc, List.append_assoc, List.singleton_append, List.singleton_append,
      get?_append, get?_append, Style.get?_cons, Style.get?_cons, hsame]
    split_ifs with hpq
    · have hnone : Style.get? r.reverse q = none := get?_eq_none fun d' hd' ↦ by
        rw [sameAsciiLetters, ← eq_of_beq hpq, ← sameAsciiLetters, hr d' (List.mem_reverse.mp hd')]
      rw [hnone, Option.none_or]
    · rfl

/-- **A property that is set has the value, and no other property changes**, if the style text
closes each quote and parenthesis before the next semicolon and declares the property at most
once. -/
theorem effective?_setStyleProperty (e : Element) (hplain : Declaration.IsPlain ⟨p, v⟩)
    (hp : p.toList.any isMark = false) (hv : v.toList.any isMark = false)
    (hclosed : HasClosedParts e.styleText)
    (honce : (declarations e.styleText).countP (fun d ↦ sameAsciiLetters d.property p) ≤ 1)
    (q : String) : effective? (e.setStyleProperty p v).styleText q =
      if sameAsciiLetters p q then some v else effective? e.styleText q := by
  have hclosed' : HasClosedParts (e.setStyleProperty p v).styleText := by
    rw [Element.styleText_setStyleProperty]
    refine hasClosedParts_text (fun d hd ↦ Style.isPlain_of_mem_set
      (fun d' hd' ↦ Style.isPlain_of_mem_parse hd') hplain hd) fun d hd ↦ ?_
    exact isClosed_chars_of_mem_set (fun d' hd' ↦ isClosed_chars_of_mem_parse hclosed hd') hp hv hd
  rw [declarations_eq_parse hclosed] at honce
  rw [effective?, effective?, declarations_eq_parse hclosed', declarations_eq_parse hclosed,
    Element.parse_styleText_setStyleProperty e hplain, get?_reverse_set honce]

/-- A style with an address in quotes and parentheses. -/
theorem effective?_setStyleProperty_display :
    let e : Element := ⟨"p", [⟨"style", "color: red; background: url('a')"⟩], []⟩
    (Declaration.IsPlain ⟨"display", "none"⟩ ∧ "display".toList.any isMark = false ∧
      "none".toList.any isMark = false ∧ HasClosedParts e.styleText ∧
      (declarations e.styleText).countP (fun d ↦ sameAsciiLetters d.property "display") ≤ 1) ∧
    effective? (e.setStyleProperty "display" "none").styleText "background" = some "url('a')" := by
  intro e
  have hplain : Declaration.IsPlain ⟨"display", "none"⟩ := by constructor <;> decide +kernel
  have hp : "display".toList.any isMark = false := by decide +kernel
  have hv : "none".toList.any isMark = false := by decide +kernel
  have hclosed : HasClosedParts e.styleText := by decide +kernel
  have honce : (declarations e.styleText).countP
    (fun d ↦ sameAsciiLetters d.property "display") ≤ 1 := by decide +kernel
  refine ⟨⟨hplain, hp, hv, hclosed, honce⟩, ?_⟩
  rw [effective?_setStyleProperty e hplain hp hv hclosed honce]
  decide +kernel

/-- The semicolon of a data URL separates nothing, but it is written as if it did: the parenthesis
is not closed any more, and what is set stands inside of it. -/
theorem effective?_setStyleProperty_dataUrl : ¬ ∀ (e : Element) (p v : String),
    Declaration.IsPlain ⟨p, v⟩ → v ≠ "" → p.toList.any isMark = false →
    v.toList.any isMark = false → ∀ q,
      effective? (e.setStyleProperty p v).styleText q =
        if sameAsciiLetters p q then some v else effective? e.styleText q := by
  intro h
  have hset :=
    h ⟨"p", [⟨"style", "background: url(data:image/png;base64,AA)"⟩], []⟩ "display" "none"
    (by constructor <;> decide +kernel) (by decide) (by decide +kernel)
    (by decide +kernel) "display"
  rw [Element.styleText_setStyleProperty, Style.parse, Text.pieces_singleton] at hset
  revert hset
  decide +kernel

/-- Of two declarations of a property the first is set, and the second stays effective. -/
example :
  effective? (Element.setStyleProperty ⟨"p", [⟨"style", "display: block; display: flex"⟩], []⟩
    "display" "none").styleText "display" = some "flex" := by
  rw [Element.styleText_setStyleProperty, Style.parse, Text.pieces_singleton]
  decide +kernel

end HtmlTemplate.Css

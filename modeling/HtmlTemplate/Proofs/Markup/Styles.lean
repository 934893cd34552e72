import HtmlTemplate.Markup.Style
import HtmlTemplate.Proofs.Text.Scanning
import HtmlTemplate.Proofs.Text.Trimming

/-!
# The inline style as a list of declarations

The style text that is written for declarations is read as the same declarations
(`Style.parse_text`), as long as each of them can be told from its text. All declarations that were
read from a text can (`Style.isPlain_of_mem_parse`), so a property that is set is found again under
its name (`Element.styleProperty?_setStyleProperty`), and setting it again leaves nothing of its
first value (`Element.setStyleProperty_setStyleProperty`).

## What is lost

Reading a style text drops the parts that declare nothing, trims the others, and spells no property
anew. Writing gives one form for each list of declarations. So reading, writing and reading again is
reading, but the text that was there before is not kept where it had another form.

## Names

A property is looked for without regard to capitals, and keeps the spelling of its first
declaration. The laws of a lens are therefore laws up to the spelling of a property.
-/

namespace HtmlTemplate

open Text (sameAsciiLetters)

/-! ## Declarations that can be read back -/

/-- Nothing in the declaration is lost or taken for a separator when it is read again. -/
structure Declaration.IsPlain (d : Declaration) : Prop where
  property_ne : d.property ≠ ""
  trimmed_property : Text.trimmed d.property = d.property
  colon_notMem_property : ':' ∉ d.property.toList
  semicolon_notMem_property : ';' ∉ d.property.toList
  trimmed_value : Text.trimmed d.value = d.value
  semicolon_notMem_value : ';' ∉ d.value.toList

def Declaration.chars (d : Declaration) : List Char :=
  d.property.toList ++ ':' :: ' ' :: d.value.toList

namespace Style

variable {d : Declaration} {ds : List Declaration}

theorem toList_declarationText (d : Declaration) :
    (declarationText d).toList = d.chars ++ [';'] := by
  simp [declarationText, Declaration.chars]

theorem declaration?_chars (h : d.IsPlain) : declaration? d.chars = some d := by
  have hcut : Text.cutAtChar (· == ':') d.chars = some (d.property.toList, ' ' :: d.value.toList) :=
    Text.cutAtChar_append_stop _ (fun c hc ↦ beq_false_of_ne fun he ↦
      h.colon_notMem_property (he ▸ hc)) rfl
  have hname : Text.trim d.property.toList = d.property.toList :=
    Text.trim_toList h.trimmed_property
  have hvalue : Text.trim (' ' :: d.value.toList) = d.value.toList := by
    rw [Text.trim, Text.trimStart_cons_of_blank _ rfl, ← Text.trim,
      Text.trim_toList h.trimmed_value]
  have hne : d.property.toList.isEmpty = false := by
    simpa using h.property_ne
  simp only [declaration?, hcut, hname, hvalue, hne, String.ofList_toList, Bool.false_eq_true,
    if_false]

theorem exists_append_of_declaration? {part : List Char} (h : declaration? part = some d) :
    ∃ name value, part = name ++ ':' :: value ∧ ':' ∉ name ∧ Text.trim name ≠ [] ∧
      d = ⟨String.ofList (Text.trim name), String.ofList (Text.trim value)⟩ := by
  rw [declaration?] at h
  split at h
  · cases h
  · rename_i name value hcut
    obtain ⟨htake, c, hc, rfl⟩ := Text.takeWhile_of_cutAtChar hcut
    obtain rfl : c = ':' := eq_of_beq hc
    have hcolon : ':' ∉ name := fun hmem ↦ by
      rw [← htake] at hmem
      simpa using List.mem_takeWhile_imp hmem
    dsimp only at h
    split at h
    · cases h
    · rename_i hne
      exact ⟨name, value, rfl, hcolon, fun hnil ↦ hne (by simp [hnil]), (Option.some.inj h).symm⟩

private theorem isPlain_of_declaration? {part : List Char} (hpart : ';' ∉ part)
    (h : declaration? part = some d) : d.IsPlain := by
  obtain ⟨name, value, rfl, hcolon, hne, rfl⟩ := exists_append_of_declaration? h
  constructor
  case property_ne => simpa using hne
  case trimmed_property => rw [Text.trimmed, String.toList_ofList, Text.trim_trim]
  case colon_notMem_property =>
    rw [String.toList_ofList]
    exact fun hmem ↦ hcolon (Text.mem_of_mem_trim hmem)
  case semicolon_notMem_property =>
    rw [String.toList_ofList]
    exact fun hmem ↦ hpart (List.mem_append_left _ (Text.mem_of_mem_trim hmem))
  case trimmed_value => rw [Text.trimmed, String.toList_ofList, Text.trim_trim]
  case semicolon_notMem_value =>
    rw [String.toList_ofList]
    exact fun hmem ↦ hpart
      (List.mem_append_right _ (List.mem_cons_of_mem _ (Text.mem_of_mem_trim hmem)))

theorem isPlain_of_mem_parse {style : String} (h : d ∈ parse style) : d.IsPlain := by
  rw [parse, Text.pieces_singleton] at h
  obtain ⟨part, hpart, hd⟩ := List.mem_filterMap.mp h
  exact isPlain_of_declaration? (Text.not_mem_of_mem_splitOn hpart) hd

/-! ## Reading what was written -/

private theorem declaration?_cons_blank {c : Char} (part : List Char) (hc : Text.isBlank c = true) :
    declaration? (c :: part) = declaration? part := by
  have hcolon : (c == ':') = false := beq_false_of_ne (by rintro rfl; cases hc)
  rw [declaration?, declaration?, Text.cutAtChar, hcolon]
  cases Text.cutAtChar (· == ':') part with
  | none => rfl
  | some ab =>
    have htrim : Text.trim (c :: ab.1) = Text.trim ab.1 := by
      rw [Text.trim, Text.trimStart_cons_of_blank _ hc, ← Text.trim]
    simp only [Bool.false_eq_true, if_false, Option.map_some, htrim]

theorem declaration?_append {gap : List Char} (part : List Char)
    (hgap : Text.isAllBlank gap = true) : declaration? (gap ++ part) = declaration? part := by
  induction gap with
  | nil => rfl
  | cons c gap ih =>
    obtain ⟨hc, hgap⟩ := Bool.and_eq_true_iff.mp hgap
    rw [List.cons_append, declaration?_cons_blank _ hc, ih hgap]

theorem exists_splitOn_append {gap : List Char} (s : List Char)
    (hgap : Text.isAllBlank gap = true) :
    ∃ part parts, s.splitOn ';' = part :: parts ∧
      (gap ++ s).splitOn ';' = (gap ++ part) :: parts := by
  have hsemicolon : ';' ∉ gap := fun hmem ↦
    absurd (List.all_eq_true.mp hgap _ hmem) (by decide)
  obtain ⟨part, parts, hs⟩ := List.exists_cons_of_ne_nil (List.splitOn_ne_nil ';' s)
  refine ⟨part, parts, hs, ?_⟩
  rw [Text.splitOn_append_of_not_mem hsemicolon, hs, List.modifyHead_cons]

theorem parse_empty : parse "" = [] := by
  rw [parse, Text.pieces_singleton]
  rfl

theorem exists_toList_text_cons (d : Declaration) (ds : List Declaration) :
    ∃ gap, Text.isAllBlank gap = true ∧
      (text (d :: ds)).toList = d.chars ++ ';' :: (gap ++ (text ds).toList) := by
  cases ds with
  | nil =>
    refine ⟨[], rfl, ?_⟩
    simp [text, toList_declarationText]
  | cons d' ds =>
    refine ⟨[' '], rfl, ?_⟩
    rw [text, List.map_cons, List.map_cons, String.intercalate_cons_cons, ← List.map_cons, ← text]
    simp [toList_declarationText]

private theorem semicolon_notMem_chars (h : d.IsPlain) : ';' ∉ d.chars := by
  have hproperty := h.semicolon_notMem_property
  have hvalue := h.semicolon_notMem_value
  simp [Declaration.chars, hproperty, hvalue]

theorem exists_splitOn_text_cons (h : d.IsPlain) (ds : List Declaration) :
    ∃ gap, Text.isAllBlank gap = true ∧
      (text (d :: ds)).toList.splitOn ';' = d.chars :: (gap ++ (text ds).toList).splitOn ';' := by
  obtain ⟨gap, hgap, htext⟩ := exists_toList_text_cons d ds
  refine ⟨gap, hgap, ?_⟩
  rw [htext, List.splitOn_append_cons_self_of_not_mem (semicolon_notMem_chars h)]

/-- **Declarations are read back from the style text that is written for them.** -/
theorem parse_text (h : ∀ d ∈ ds, d.IsPlain) : parse (text ds) = ds := by
  rw [parse, Text.pieces_singleton]
  induction ds with
  | nil => rfl
  | cons d ds ih =>
    have hd := h d List.mem_cons_self
    obtain ⟨gap, hgap, hparts⟩ := exists_splitOn_text_cons hd ds
    obtain ⟨part, parts, htext, hgapped⟩ := exists_splitOn_append (text ds).toList hgap
    have hrest : ((gap ++ (text ds).toList).splitOn ';').filterMap declaration? = ds := by
      rw [hgapped, List.filterMap_cons, declaration?_append part hgap, ← List.filterMap_cons,
        ← htext, ih fun d' hd' ↦ h d' (List.mem_cons_of_mem d hd')]
    rw [hparts, List.filterMap_cons_some (declaration?_chars hd), hrest]

/-! ## Setting a property

Setting changes the first declaration of a property, or adds one behind the others, and the list of
declarations is searched from the front as well. -/

theorem get?_cons (d : Declaration) (ds : List Declaration) (q : String) :
    get? (d :: ds) q = if sameAsciiLetters d.property q then some d.value else get? ds q := by
  rw [get?, List.find?_cons]
  split <;> simp_all [get?]

/-- Either the property has no declaration yet and gets one behind the others, or its first
declaration gets the value. -/
theorem set_cases (p v : String) (ds : List Declaration) :
    ((∀ d ∈ ds, sameAsciiLetters d.property p = false) ∧ set p v ds = ds ++ [⟨p, v⟩]) ∨
    ∃ l d r, ds = l ++ d :: r ∧ sameAsciiLetters d.property p = true ∧
      (∀ d' ∈ l, sameAsciiLetters d'.property p = false) ∧
      set p v ds = l ++ { d with value := v } :: r := by
  induction ds with
  | nil => exact .inl ⟨by simp, rfl⟩
  | cons d ds ih =>
    by_cases hd : sameAsciiLetters d.property p = true
    · exact .inr ⟨[], d, ds, rfl, hd, by simp, by rw [set, if_pos hd]; rfl⟩
    · have hd' : sameAsciiLetters d.property p = false := by simpa using hd
      rcases ih with ⟨hnone, hset⟩ | ⟨l, d₀, r, rfl, hd₀, hl, hset⟩
      · exact .inl ⟨List.forall_mem_cons.mpr ⟨hd', hnone⟩, by rw [set, if_neg hd, hset]; rfl⟩
      · exact .inr ⟨d :: l, d₀, r, rfl, hd₀, List.forall_mem_cons.mpr ⟨hd', hl⟩,
          by rw [set, if_neg hd, hset]; rfl⟩

/-- A declaration is an old one, or has the value, for a property in the spelling of an old one or
as it was given. -/
theorem mem_set {p v : String} (h : d ∈ set p v ds) :
    d ∈ ds ∨ ∃ d₀, (d₀ = ⟨p, v⟩ ∨ d₀ ∈ ds) ∧ sameAsciiLetters d₀.property p = true ∧
      d = { d₀ with value := v } := by
  rcases set_cases p v ds with ⟨-, hset⟩ | ⟨l, d₀, r, rfl, hd₀, -, hset⟩
  · rcases List.mem_append.mp (hset ▸ h) with h | h
    · exact .inl h
    · exact .inr ⟨⟨p, v⟩, .inl rfl, beq_self_eq_true _, List.mem_singleton.mp h⟩
  · rcases List.mem_append.mp (hset ▸ h) with h | h
    · exact .inl (List.mem_append_left _ h)
    rcases List.mem_cons.mp h with rfl | h
    · exact .inr ⟨d₀, .inr (by simp), hd₀, rfl⟩
    · exact .inl (List.mem_append_right _ (List.mem_cons_of_mem _ h))

theorem isPlain_of_mem_set {p v : String} (hds : ∀ d ∈ ds, d.IsPlain)
    (hpv : Declaration.IsPlain ⟨p, v⟩) (h : d ∈ set p v ds) : d.IsPlain := by
  rcases mem_set h with h | ⟨d₀, hd₀, -, rfl⟩
  · exact hds d h
  · have hproperty : d₀.IsPlain := hd₀.elim (· ▸ hpv) (hds d₀)
    exact ⟨hproperty.property_ne, hproperty.trimmed_property, hproperty.colon_notMem_property,
      hproperty.semicolon_notMem_property, hpv.trimmed_value, hpv.semicolon_notMem_value⟩

theorem get?_set (p v : String) (ds : List Declaration) (q : String) :
    get? (set p v ds) q = if sameAsciiLetters p q then some v else get? ds q := by
  induction ds with
  | nil => rw [set, get?_cons]
  | cons d ds ih =>
    by_cases hd : sameAsciiLetters d.property p = true
    · have hq : sameAsciiLetters d.property q = sameAsciiLetters p q := by
        rw [sameAsciiLetters, eq_of_beq hd, ← sameAsciiLetters]
      rw [set, if_pos hd, get?_cons, get?_cons, hq]
      split <;> rfl
    · rw [set, if_neg hd, get?_cons, get?_cons, ih]
      split_ifs with hdq hpq
      · exact absurd (by rw [sameAsciiLetters, eq_of_beq hdq, ← eq_of_beq hpq, beq_self_eq_true]) hd
      · rfl
      · rfl
      · rfl

theorem set_set (p v w : String) (ds : List Declaration) :
    set p w (set p v ds) = set p w ds := by
  induction ds with
  | nil => exact if_pos (beq_self_eq_true _)
  | cons d ds ih =>
    by_cases hd : sameAsciiLetters d.property p = true
    · rw [set, if_pos hd, set, if_pos hd, set, if_pos hd]
    · rw [set, if_neg hd, set, if_neg hd, set, if_neg hd, ih]

end Style

/-- An attribute of another name stands where it stood, and no further one does. -/
theorem Attribute.getElem?_set_iff {as : List Attribute} {key value : String} {i : Nat}
    {a : Attribute} (h : a.name ≠ key) : (set key value as)[i]? = some a ↔ as[i]? = some a := by
  induction as generalizing i with
  | nil =>
    have hnew : (⟨key, value⟩ : Attribute) ≠ a := fun he ↦ h (he ▸ rfl)
    cases i <;> simp [set, hnew]
  | cons b as ih =>
    rw [set]
    by_cases hb : b.name = key
    · have hold : b ≠ a := fun he ↦ h (he ▸ hb)
      have hnew : (⟨b.name, value⟩ : Attribute) ≠ a := fun he ↦ h (he ▸ hb)
      rw [if_pos hb]
      cases i <;> simp [hold, hnew]
    · rw [if_neg hb]
      cases i with
      | zero => rfl
      | succ i => exact ih

namespace Element

variable (e : Element)

def styleText : String := (e.attribute? "style").getD ""

theorem styleProperty?_eq (q : String) :
    e.styleProperty? q = Style.get? (Style.parse e.styleText) q := by
  rw [styleProperty?, styleText]
  cases e.attribute? "style" with
  | none => rw [Option.bind_none, Option.getD_none, Style.parse_empty, Style.get?]; rfl
  | some style => rfl

theorem setStyleProperty_eq (p v : String) :
    e.setStyleProperty p v =
      e.setAttribute "style" (Style.text (Style.set p v (Style.parse e.styleText))) := by
  rw [setStyleProperty, styleText]
  cases e.attribute? "style" with
  | none => rw [Option.map_none, Option.getD_none, Option.getD_none, Style.parse_empty]
  | some style => rfl

theorem styleText_setStyleProperty (p v : String) :
    (e.setStyleProperty p v).styleText = Style.text (Style.set p v (Style.parse e.styleText)) := by
  rw [setStyleProperty_eq, styleText, attribute?, setAttribute, Attribute.get?_set, if_pos rfl,
    Option.getD_some]

theorem setAttribute_setStyleProperty (p v style : String) :
    (e.setStyleProperty p v).setAttribute "style" style = e.setAttribute "style" style := by
  rw [setStyleProperty, setAttribute, setAttribute, setAttribute, Attribute.set_set]

theorem parse_styleText_setStyleProperty {p v : String} (h : Declaration.IsPlain ⟨p, v⟩) :
    Style.parse (e.setStyleProperty p v).styleText = Style.set p v (Style.parse e.styleText) := by
  rw [styleText_setStyleProperty, Style.parse_text fun d hd ↦
    Style.isPlain_of_mem_set (fun d' hd' ↦ Style.isPlain_of_mem_parse hd') h hd]

/-- **A property that was set has its value, the others keep theirs.** -/
theorem styleProperty?_setStyleProperty {p v : String} (h : Declaration.IsPlain ⟨p, v⟩)
    (q : String) : (e.setStyleProperty p v).styleProperty? q =
      if sameAsciiLetters p q then some v else e.styleProperty? q := by
  rw [styleProperty?_eq, parse_styleText_setStyleProperty e h, Style.get?_set, styleProperty?_eq]

/-- A property that is set again has forgotten its first value, in whatever spelling it was
declared. -/
theorem setStyleProperty_setStyleProperty {p v : String} (h : Declaration.IsPlain ⟨p, v⟩)
    (w : String) : (e.setStyleProperty p v).setStyleProperty p w = e.setStyleProperty p w := by
  rw [setStyleProperty_eq, parse_styleText_setStyleProperty e h, Style.set_set,
    setAttribute_setStyleProperty, ← setStyleProperty_eq]

/-- **The properties of a style are got and set as the parts of a record are.** A property that was
set has its value and the others keep theirs, setting it again leaves nothing of the first value,
and every attribute but the style stays as it is and where it is. -/
theorem styleProperty_lens {p v : String} (h : Declaration.IsPlain ⟨p, v⟩) :
    (e.setStyleProperty p v).styleProperty? p = some v ∧
    (∀ q, sameAsciiLetters p q = false →
      (e.setStyleProperty p v).styleProperty? q = e.styleProperty? q) ∧
    (∀ w, (e.setStyleProperty p v).setStyleProperty p w = e.setStyleProperty p w) ∧
    ∀ (i : Nat) (a : Attribute), a.name ≠ "style" →
      ((e.setStyleProperty p v).attributes[i]? = some a ↔ e.attributes[i]? = some a) := by
  refine ⟨?_, fun q hq ↦ ?_, e.setStyleProperty_setStyleProperty h, fun i a ha ↦ ?_⟩
  · have hself : sameAsciiLetters p p = true := beq_self_eq_true _
    rw [styleProperty?_setStyleProperty e h, if_pos hself]
  · rw [styleProperty?_setStyleProperty e h, hq, if_neg Bool.false_ne_true]
  · exact Attribute.getElem?_set_iff ha

/-- A style that declares the property twice, in other letters, with parts that declare nothing. -/
theorem styleProperty_lens_color :
    let e : Element := ⟨"p", [⟨"style", ";COLOR : a:b;x; color: red; top:"⟩, ⟨"id", "i"⟩], []⟩
    Declaration.IsPlain ⟨"Color", "a: 1"⟩ ∧
      (e.setStyleProperty "Color" "a: 1").styleProperty? "Color" = some "a: 1" ∧
      (e.setStyleProperty "Color" "a: 1").styleProperty? "top" = e.styleProperty? "top" ∧
      (e.setStyleProperty "Color" "a: 1").setStyleProperty "Color" "" =
        e.setStyleProperty "Color" "" ∧
      (e.setStyleProperty "Color" "a: 1").attributes[1]? = some ⟨"id", "i"⟩ := by
  intro e
  have hplain : Declaration.IsPlain ⟨"Color", "a: 1"⟩ := by constructor <;> decide +kernel
  obtain ⟨hget, hothers, hset, hframe⟩ := e.styleProperty_lens hplain
  exact ⟨hplain, hget, hothers "top" (by decide), hset "",
    (hframe 1 ⟨"id", "i"⟩ (by decide)).mpr rfl⟩

end Element

end HtmlTemplate

import HtmlTemplate.Proofs.Expr.Sources
import HtmlTemplate.Proofs.Interpolation.Quoting

/-!
# A text as a sum

The expression of a text is the sources of its runs with a plus between them. Its tokens are those
of the runs, so it is an expression whenever every span is one (`isSource_foldl`), and conversely as
far as the spans are closed in themselves (`isExpression_of_isSource`). It is the sum of the runs,
and its value the sum of their values, if no operator of a span is torn out of it: if every span is
of the level of an operand of a sum, apart from the first run, which may be a sum itself
(`call_of_isSum`).

## Three questions

Whether the source of a text can be read is one question, and it is answered by its spans alone as
far as these are closed. Whether it means the sum of its runs is the second one: an operator of a
span that is looser than a plus takes in the runs around it. The third is whether the sum is a text.
Two numbers in front are added as numbers, so the text of the sum is not the texts of the runs in a
row unless one of the first two values is treated as a text.
-/

namespace HtmlTemplate.Interpolation

open HtmlTemplate.Expr

/-! ## The runs of a text -/

theorem intercalate_plus (s : List Char) (ss : List (List Char)) :
    ['+'].intercalate (s :: ss) = ss.foldl (fun joined r ↦ joined ++ '+' :: r) s := by
  induction ss generalizing s with
  | nil => simp
  | cons r ss ih =>
    rw [List.foldl_cons, ← ih]
    cases ss <;> simp

/-- A literal run is a string literal. -/
theorem isSource_quote (text : List Char) :
    IsSource (.level .multiplicative) (quote text) (.literal (.string (String.ofList text))) :=
  ⟨_, tokensFrom_quote_nil text, .operand (.unprefixed (.primary (.string rfl)))⟩

theorem hasValue_quote (data : Data) (text : List Char) :
    HasValue data .multiplicative (quote text) (.string (String.ofList text)) := by
  refine ⟨_, isSource_quote text, fun scope _ ↦ ?_⟩
  rw [eval]
  rfl

theorem exists_span_of_hasSpan {s : List Char} (h : hasSpan s = true) :
    ∃ content, .span content ∈ runs s := by
  rw [hasSpan, Option.isSome_iff_exists] at h
  obtain ⟨⟨before, content, behind⟩, hspan⟩ := h
  refine ⟨content, ?_⟩
  rw [runs_of_firstSpan? hspan]
  exact List.mem_append_right _ List.mem_cons_self

theorem toExpression_of_runs {s : List Char} {r : Run} {rs : List Run} (h : hasSpan s = true)
    (hruns : runs s = r :: rs) :
    toExpression s = rs.foldl (fun joined r ↦ joined ++ '+' :: r.toSource) r.toSource := by
  rw [toExpression, if_pos h, hruns, List.map_cons, intercalate_plus, List.foldl_map]

def Run.IsExpression (r : Run) : Prop :=
  ∃ evaluator, Evaluator.ofSource (String.ofList r.toSource) = .ok evaluator

theorem isExpression_iff {r : Run} :
    r.IsExpression ↔ ∃ e, IsSource .conditional r.toSource e := exists_ofSource_iff

theorem isExpression_literal (text : List Char) : (Run.literal text).IsExpression :=
  isExpression_iff.mpr ⟨_, (isSource_quote text).conditional⟩

theorem isSource_foldl {rs : List Run} : ∀ {s : List Char}, (∃ e, IsSource .conditional s e) →
    (∀ r ∈ rs, r.IsExpression) →
    ∃ e, IsSource .conditional (rs.foldl (fun joined r ↦ joined ++ '+' :: r.toSource) s) e := by
  induction rs with
  | nil => exact fun hs _ ↦ hs
  | cons r rs ih =>
    rintro s ⟨a, ha⟩ h
    obtain ⟨b, hb⟩ := isExpression_iff.mp (h r List.mem_cons_self)
    exact ih (ha.joined hb) fun r' hr' ↦ h r' (List.mem_cons_of_mem r hr')

/-- The converse, as far as the sources before the last one are closed. -/
theorem isExpression_of_isSource {rs : List Run} : ∀ {r : Run},
    (∃ e, IsSource .conditional (['+'].intercalate ((r :: rs).map Run.toSource)) e) →
    (∀ r' ∈ (r :: rs).dropLast, IsClosedSource r'.toSource) → ∀ r' ∈ r :: rs, r'.IsExpression := by
  induction rs with
  | nil =>
    rintro r ⟨e, he⟩ - r' hr'
    rw [List.mem_singleton.mp hr']
    rw [List.map_cons, List.map_nil, List.intercalate_singleton] at he
    exact isExpression_iff.mpr ⟨e, he⟩
  | cons s rs ih =>
    rintro r ⟨e, he⟩ hclosed r' hr'
    rw [List.map_cons, List.map_cons, List.intercalate_cons_cons, List.append_assoc,
      ← List.map_cons] at he
    rw [List.dropLast_cons_cons] at hclosed
    obtain ⟨hr, hrs⟩ := he.split (hclosed r List.mem_cons_self)
    rcases List.mem_cons.mp hr' with rfl | hr'
    · exact isExpression_iff.mpr hr
    · exact ih hrs (fun r' hr' ↦ hclosed r' (List.mem_cons_of_mem r hr')) r' hr'

/-! ## The value of a text -/

def Run.Denotes (data : Data) : Run → Value → Prop
  | literal text, v => v = .string (String.ofList text)
  | span content, v => ∃ evaluator,
      Evaluator.ofSource (String.ofList (Text.trim content)) = .ok evaluator ∧
        evaluator.call data = .ok v

/-- Is the source of the run of the level, or of a tighter one? -/
def Run.IsOfLevel (l : Level) (r : Run) : Prop := ∃ e, IsSource (.level l) r.toSource e

/-- Is no operator of a span torn out of it? Every run is an operand of a sum, and the first one may
be a sum. -/
def IsSum : List Run → Prop
  | [] => True
  | r :: rs => r.IsOfLevel .additive ∧ ∀ r' ∈ rs, r'.IsOfLevel .multiplicative

/-- The tree of a source is the same at every level. -/
theorem IsSource.unique {l : Level} {s : List Char} {e f : Expr}
    (he : IsSource (.level l) s e) (hf : IsSource .conditional s f) : e = f := by
  have := (parse_eq_ok_iff.mpr he.conditional).symm.trans (parse_eq_ok_iff.mpr hf)
  cases this
  rfl

theorem hasValue_of_denotes {data : Data} {l : Level} {r : Run} {v : Value}
    (hl : r.IsOfLevel l) (h : r.Denotes data v) : HasValue data l r.toSource v := by
  obtain ⟨e, he⟩ := hl
  rcases r with text | content
  · obtain ⟨f, hf, hv⟩ := hasValue_quote data text
    cases h
    -- the level is known of one tree and the value of another, but a source has one tree only
    have hef := IsSource.unique he hf.conditional
    subst hef
    exact ⟨e, he, hv⟩
  · obtain ⟨evaluator, hsource, hcall⟩ := h
    obtain ⟨f, hf, rfl⟩ := map_eq_ok_iff.mp hsource
    have hef := IsSource.unique he (parse_eq_ok_iff.mp hf)
    subst hef
    exact hasValue_of_call he hcall

/-- The runs behind a source add their values to its value. -/
theorem hasValue_foldl {data : Data} {rs : List Run} {vs : List Value}
    (h : List.Forall₂ (Run.Denotes data) rs vs) : ∀ {s : List Char} {v : Value},
    HasValue data .additive s v → (∀ r ∈ rs, r.IsOfLevel .multiplicative) →
    HasValue data .additive (rs.foldl (fun joined r ↦ joined ++ '+' :: r.toSource) s)
      (vs.foldl Value.add v) := by
  induction h with
  | nil => exact fun hs _ ↦ hs
  | cons hr _ ih =>
    intro s v hs hlevel
    exact ih (hs.add (hasValue_of_denotes (hlevel _ List.mem_cons_self) hr))
      fun r hr' ↦ hlevel r (List.mem_cons_of_mem _ hr')

def textsOf (vs : List Value) : String := String.ofList (vs.flatMap fun v ↦ v.toText.toList)

theorem add_of_isTextLike {a b : Value} (h : a.isTextLike = true ∨ b.isTextLike = true) :
    a.add b = .string (a.toText ++ b.toText) := by
  rw [Value.add, if_pos (by rwa [Bool.or_eq_true])]

theorem textsOf_cons (v : Value) (vs : List Value) :
    textsOf (v :: vs) = v.toText ++ textsOf vs := by
  rw [textsOf, List.flatMap_cons, String.ofList_append, String.ofList_toList, ← textsOf]

theorem foldl_add_string (vs : List Value) (s : String) :
    vs.foldl Value.add (.string s) = .string (s ++ textsOf vs) := by
  induction vs generalizing s with
  | nil => exact congrArg Value.string String.append_empty.symm
  | cons v vs ih =>
    rw [List.foldl_cons, add_of_isTextLike (Or.inl rfl), ih, textsOf_cons, ← String.append_assoc]
    rfl

/-- A sum is a text as soon as one of the first two values is treated as one. -/
theorem foldl_add_of_isTextLike {a b : Value} (vs : List Value)
    (h : a.isTextLike = true ∨ b.isTextLike = true) :
    (b :: vs).foldl Value.add a = .string (textsOf (a :: b :: vs)) := by
  rw [List.foldl_cons, add_of_isTextLike h, foldl_add_string, textsOf_cons, textsOf_cons,
    String.append_assoc]

private theorem exists_ofSource_expressionOf_iff {t : String} {r : Run} {rs : List Run}
    (hspan : hasSpan t.toList = true) (hruns : runs t.toList = r :: rs) :
    (∃ evaluator, Evaluator.ofSource (expressionOf t) = .ok evaluator) ↔
      ∃ e, IsSource .conditional (['+'].intercalate ((r :: rs).map Run.toSource)) e := by
  rw [expressionOf, toExpression, if_pos hspan, hruns]
  exact exists_ofSource_iff

/-- A text with a literal run is a sum of its runs, and has the texts of their values. -/
theorem call_of_isSum {t : String} {data : Data} {vs : List Value}
    (hspan : hasSpan t.toList = true) (hvs : List.Forall₂ (Run.Denotes data) (runs t.toList) vs)
    (hliteral : ∃ text, .literal text ∈ runs t.toList) (hsum : IsSum (runs t.toList))
    (hfirst : ∀ a b rest, vs = a :: b :: rest → a.isTextLike = true ∨ b.isTextLike = true) :
    ∃ evaluator, Evaluator.ofSource (expressionOf t) = .ok evaluator ∧
      evaluator.call data = .ok (.string (textsOf vs)) := by
  obtain ⟨content, hcontent⟩ := exists_span_of_hasSpan hspan
  obtain ⟨r, rs, hruns⟩ := List.exists_cons_of_ne_nil (List.ne_nil_of_mem hcontent)
  obtain ⟨text, htext⟩ := hliteral
  rw [hruns] at hvs hsum
  rcases hvs with _ | ⟨hr, hrs⟩
  rename_i v vs
  have hvalue := hasValue_foldl hrs (hasValue_of_denotes hsum.1 hr) hsum.2
  rw [← toExpression_of_runs hspan hruns] at hvalue
  obtain ⟨evaluator, hev, hcall⟩ := hvalue.call
  refine ⟨evaluator, hev, ?_⟩
  rcases hrs with _ | ⟨-, -⟩
  · -- a single run would be a span and a literal run at once
    rw [hruns] at hcontent htext
    cases List.mem_singleton.mp hcontent
    cases List.mem_singleton.mp htext
  · rename_i w ws _ _
    rw [hcall, foldl_add_of_isTextLike _ (hfirst v _ _ rfl)]

/-- **The expression of a text.** Every span can be read on its own if and only if the whole can be
read and every span but a last one is closed. If besides no operator is torn out of a span, the text
has a literal run, and it does not begin with two spans whose values addition treats as numbers,
then the whole evaluates to the texts of the runs in order, whenever every span has a value: each
literal run as it is, and each span as the text of its own value. -/
theorem call_expressionOf (t : String) (hspan : isInterpolated t = true) :
    ((∀ content, .span content ∈ runs t.toList →
        ∃ evaluator, Evaluator.ofSource (String.ofList (Text.trim content)) = .ok evaluator) ↔
      (∃ evaluator, Evaluator.ofSource (expressionOf t) = .ok evaluator) ∧
        ∀ content, .span content ∈ (runs t.toList).dropLast → IsClosedSource (Text.trim content)) ∧
    ∀ (data : Data) (vs : List Value), List.Forall₂ (Run.Denotes data) (runs t.toList) vs →
      (∃ text, .literal text ∈ runs t.toList) → IsSum (runs t.toList) →
      (∀ a b rest, vs = a :: b :: rest → a.isTextLike = true ∨ b.isTextLike = true) →
      ∃ evaluator, Evaluator.ofSource (expressionOf t) = .ok evaluator ∧
        evaluator.call data = .ok (.string (textsOf vs)) := by
  obtain ⟨content, hcontent⟩ := exists_span_of_hasSpan hspan
  obtain ⟨r, rs, hruns⟩ := List.exists_cons_of_ne_nil (List.ne_nil_of_mem hcontent)
  refine ⟨⟨fun h ↦ ⟨?_, fun c hc ↦ ?_⟩, fun ⟨h, hclosed⟩ c hc ↦ ?_⟩, ?_⟩
  · have hall : ∀ r' ∈ r :: rs, r'.IsExpression := by
      rw [← hruns]
      rintro (text | c) hr'
      · exact isExpression_literal text
      · exact h c hr'
    rw [exists_ofSource_expressionOf_iff hspan hruns, List.map_cons, intercalate_plus,
      List.foldl_map]
    exact isSource_foldl (isExpression_iff.mp (hall r List.mem_cons_self))
      fun r' hr' ↦ hall r' (List.mem_cons_of_mem r hr')
  · obtain ⟨e, he⟩ := exists_ofSource_iff.mp (h c (List.dropLast_subset _ hc))
    exact he.isClosedSource
  · rw [hruns] at hc hclosed
    have hwhole := (exists_ofSource_expressionOf_iff hspan hruns).mp h
    have hall : ∀ r' ∈ (r :: rs).dropLast, IsClosedSource r'.toSource := by
      rintro (text | c) hr'
      · obtain ⟨e, he⟩ := isExpression_iff.mp (isExpression_literal text)
        exact he.isClosedSource
      · exact hclosed c hr'
    exact isExpression_of_isSource hwhole hall (.span c) hc
  · exact fun data vs hvs hliteral hsum hfirst ↦ call_of_isSum hspan hvs hliteral hsum hfirst

/-- A literal run and a name. -/
theorem call_expressionOf_name :
    isInterpolated "x{{ a }}" = true ∧
      ∃ evaluator, Evaluator.ofSource (expressionOf "x{{ a }}") = .ok evaluator ∧
        evaluator.call [("a", .string "y")] = .ok (.string "xy") := by
  have hruns : runs "x{{ a }}".toList = [.literal ['x'], .span [' ', 'a', ' ']] := by
    rw [runs_of_firstSpan? (a := ['x']) (c := [' ', 'a', ' ']) (b := []) rfl,
      runs_of_no_span (s := []) rfl]
    rfl
  have hspan : isInterpolated "x{{ a }}" = true := by decide
  have ha : IsSource (.level .multiplicative) ['a'] (.name "a" ⟨0, 1⟩) :=
    ⟨_, tokensFrom_single rfl rfl, .operand (.unprefixed (.primary (.name rfl rfl)))⟩
  have hx : IsSource (.level .multiplicative) (quote ['x']) (.literal (.string "x")) :=
    ⟨_, tokensFrom_quote_nil ['x'], .operand (.unprefixed (.primary (.string rfl)))⟩
  have hsource : Evaluator.ofSource "a" = .ok ⟨"a", .name "a" ⟨0, 1⟩, ["a"]⟩ := by
    rw [Evaluator.ofSource, show parse "a" = .ok _ from parse_eq_ok_iff.mpr ha.conditional]
    rfl
  refine ⟨hspan, (call_expressionOf "x{{ a }}" hspan).2 [("a", .string "y")]
    [.string "x", .string "y"] ?_ ?_ ?_ ?_⟩
  · rw [hruns]
    exact .cons rfl (.cons ⟨_, hsource, rfl⟩ .nil)
  · rw [hruns]
    exact ⟨['x'], List.mem_cons_self⟩
  · rw [hruns]
    refine ⟨⟨_, _, tokensFrom_quote_nil ['x'],
      .operand (.operand (.unprefixed (.primary (.string rfl))))⟩, ?_⟩
    rintro r hr
    rw [List.mem_singleton.mp hr]
    exact ⟨_, ha⟩
  · rintro a b rest h
    cases h
    exact Or.inl rfl

/-! ## Spans that are torn

A span is torn when an operator in it has an operand that begins or ends in another run. -/

theorem exists_ofSource_blank_span : runs "{{ }}x".toList = [.span [' '], .literal ['x']] ∧
    (∃ evaluator, Evaluator.ofSource (expressionOf "{{ }}x") = .ok evaluator) ∧
      ¬ ∃ evaluator, Evaluator.ofSource (String.ofList (Text.trim [' '])) = .ok evaluator := by
  have hruns : runs "{{ }}x".toList = [.span [' '], .literal ['x']] := by
    rw [runs_of_firstSpan? (a := []) (c := [' ']) (b := ['x']) rfl,
      runs_of_no_span (s := ['x']) rfl]
    rfl
  refine ⟨hruns, ?_, fun h ↦ ?_⟩
  · rw [expressionOf, toExpression, if_pos (by decide), hruns]
    refine exists_ofSource_iff.mpr ⟨.unary .plus (.literal (.string "x")), _,
      tokensFrom_joined (tokensFrom_of_blank 0 rfl) (tokensFrom_quote_nil ['x']), ?_⟩
    exact .test (.operand (.operand (.operand (.operand (.operand (.operand
      (.prefixed rfl (.unprefixed (.primary (.string rfl))))))))))
  · obtain ⟨e, l, hl, he⟩ := exists_ofSource_iff.mp h
    rw [show Text.trim [' '] = [] from rfl, tokensFrom_of_blank 0 rfl] at hl
    cases hl
    exact he.ne_nil rfl rfl

private theorem derives_alternative {ts us : List Token} {t : Token} {a b : Expr}
    (ht : t.kind = .punct .orOr) (ha : Derives (.level .additive) ts (.expr a))
    (hb : Derives (.level .and) us (.expr b)) :
    Derives .conditional (ts ++ t :: us) (.expr (.logical .or a b)) := by
  have hop : Level.or.operator? t.kind = some (.logical .or) := by
    rw [ht]
    rfl
  exact .test (.operation (ha.loosen (by decide)) hop hb)

theorem call_torn_alternative :
    runs "x{{ a||b }}".toList = [.literal ['x'], .span " a||b ".toList] ∧
    Run.Denotes [("a", .null), ("b", .string "b")] (.span " a||b ".toList) (.string "b") ∧
    ∃ evaluator, Evaluator.ofSource (expressionOf "x{{ a||b }}") = .ok evaluator ∧
      evaluator.call [("a", .null), ("b", .string "b")] = .ok (.string "xnull") := by
  have hruns : runs "x{{ a||b }}".toList = [.literal ['x'], .span " a||b ".toList] := by
    rw [runs_of_firstSpan? (a := ['x']) (c := " a||b ".toList) (b := []) rfl,
      runs_of_no_span (s := []) rfl]
    rfl
  have hname (text : String) (span : Span) {l : Level} {e : Expr} (h : ofName text span = some e) :
      Derives (.level l) [⟨.name text, span⟩] (.expr e) := .of_ofName h
  have ha : scanToken 'a' ['|', '|', 'b'] = .ok (.name "a", ['|', '|', 'b']) := rfl
  have hor : scanToken '|' ['|', 'b'] = .ok (.punct .orOr, ['b']) :=
    scanToken_of_inFront? (by decide) rfl
  have hb : scanToken 'b' [] = .ok (.name "b", []) := rfl
  have htokens : tokensFrom 0 ['a', '|', '|', 'b'] =
      .ok ⟨[⟨.name "a", 0, 1⟩, ⟨.punct .orOr, 1, 3⟩, ⟨.name "b", 3, 4⟩], 4⟩ := by
    rw [tokensFrom_of_token 0 rfl ha, tokensFrom_of_token _ rfl hor, tokensFrom_of_token _ rfl hb,
      tokensFrom_of_blank _ rfl]
    rfl
  have hspan : IsSource .conditional ['a', '|', '|', 'b']
      (.logical .or (.name "a" ⟨0, 1⟩) (.name "b" ⟨3, 4⟩)) := by
    have ha := hname "a" ⟨0, 1⟩ (l := .additive) rfl
    exact ⟨_, htokens, derives_alternative rfl ha (hname "b" ⟨3, 4⟩ rfl)⟩
  have hwhole : IsSource .conditional (quote ['x'] ++ '+' :: ['a', '|', '|', 'b'])
      (.logical .or (.binary .add (.literal (.string "x")) (.name "a" ⟨4, 5⟩))
        (.name "b" ⟨7, 8⟩)) := by
    have htext :
        Derives (.level .additive) [⟨.string "x", 0, 3⟩] (.expr (.literal (.string "x"))) :=
      .operand (.operand (.unprefixed (.primary (.string rfl))))
    have hsum : Derives (.level .additive)
        [⟨.string "x", 0, 3⟩, ⟨.punct .plus, 3, 4⟩, ⟨.name "a", 4, 5⟩]
        (.expr (.binary .add (.literal (.string "x")) (.name "a" ⟨4, 5⟩))) :=
      htext.add rfl (hname "a" ⟨4, 5⟩ rfl)
    have htokens' := tokensFrom_joined (tokensFrom_quote_nil ['x']) htokens
    have h := derives_alternative (t := ⟨.punct .orOr, 5, 7⟩) rfl hsum (hname "b" ⟨7, 8⟩ rfl)
    exact ⟨_, htokens', h⟩
  have hsource : expressionOf "x{{ a||b }}" =
      String.ofList (quote ['x'] ++ '+' :: ['a', '|', '|', 'b']) := by
    rw [expressionOf, toExpression, if_pos (by decide), hruns]
    rfl
  exact ⟨hruns, ⟨_, hspan.ofSource, rfl⟩, _,
    (congrArg Evaluator.ofSource hsource).trans hwhole.ofSource, rfl⟩

/-- **Spans are not isolated**, neither in what can be read nor in what it means. -/
theorem not_isolated :
    (¬ ∀ t, isInterpolated t = true → (∃ text, .literal text ∈ runs t.toList) →
      (∃ evaluator, Evaluator.ofSource (expressionOf t) = .ok evaluator) →
      ∀ content, .span content ∈ runs t.toList →
        ∃ evaluator, Evaluator.ofSource (String.ofList (Text.trim content)) = .ok evaluator) ∧
    ¬ ∀ t (data : Data) (vs : List Value), isInterpolated t = true →
      (∃ text, .literal text ∈ runs t.toList) →
      List.Forall₂ (Run.Denotes data) (runs t.toList) vs →
      ∃ evaluator, Evaluator.ofSource (expressionOf t) = .ok evaluator ∧
        evaluator.call data = .ok (.string (textsOf vs)) := by
  constructor
  · intro h
    obtain ⟨hruns, hwhole, hspan⟩ := exists_ofSource_blank_span
    refine hspan (h "{{ }}x" (by decide) ⟨['x'], ?_⟩ hwhole [' '] ?_)
    · rw [hruns]
      exact List.mem_cons_of_mem _ List.mem_cons_self
    · rw [hruns]
      exact List.mem_cons_self
  · intro h
    obtain ⟨hruns, hspan, evaluator, hev, hcall⟩ := call_torn_alternative
    obtain ⟨evaluator', hev', hcall'⟩ := h "x{{ a||b }}" _ [.string "x", .string "b"] (by decide)
      ⟨['x'], by rw [hruns]; exact List.mem_cons_self⟩
      (by rw [hruns]; exact .cons rfl (.cons hspan .nil))
    rw [hev] at hev'
    cases hev'
    rw [hcall] at hcall'
    have htexts : "xnull" = textsOf [.string "x", .string "b"] := by
      simpa using hcall'
    exact absurd htexts (by decide)

end HtmlTemplate.Interpolation

import HtmlTemplate.Proofs.Expr.Lookup
import HtmlTemplate.Proofs.Expr.Replacement

/-!
# Names as members of objects

A name alone in an object abbreviates a member: its key is the name and its value what the name
denotes. Where the name is an expression that denotes the same, the abbreviation has the same result
as the member written out, and so it has inside of any expression. This holds for every name but the
literals `true`, `false` and `null`: as a member one of these is looked up like any other name, and
there is no value of such a name.

## Inside of an expression

The abbreviation and the member written out have different tokens and different trees, so that one
can stand for the other inside of an expression is not seen from either. It follows from what their
braces enclose: both are a primary phrase whatever stands around them, and have the same result in
every scope in which the name denotes the same. What an error quotes of the source is left out of
the comparison.
-/

namespace HtmlTemplate

namespace Expr

variable {name : String} {scope scope' : Scope}

/-! ## The two objects -/

theorem exists_isObject_shorthand {g : List Token}
    (hg : g.map Token.kind = [.punct .leftBrace, .name name, .punct .rightBrace]) :
    ∃ span, IsObject g [.shorthand name span] := by
  simp only [List.map_eq_cons_iff, List.map_eq_nil_iff] at hg
  obtain ⟨o, _, rfl, ho, n, _, rfl, hn, c, _, rfl, hc, rfl⟩ := hg
  have hmembers : Derives .members [n] (.members [.shorthand name n.span]) :=
    .lastMember (.shorthand (by rw [hn]; rfl))
  exact ⟨n.span, .braces ho hmembers hc⟩

theorem exists_isObject_pair {g : List Token} (hword : name ∉ ["in", "typeof"])
    (hg : g.map Token.kind = [.punct .leftBrace, .name name, .punct .colon, .name name,
      .punct .rightBrace]) :
    ∃ span e, ofName name span = some e ∧ IsObject g [.pair name e] := by
  simp only [List.map_eq_cons_iff, List.map_eq_nil_iff] at hg
  obtain ⟨o, _, rfl, ho, n, _, rfl, hn, k, _, rfl, hk, v, _, rfl, hv, c, _, rfl, hc, rfl⟩ := hg
  obtain ⟨e, he⟩ : ∃ e, ofName name v.span = some e :=
    exists_ofName_iff.mpr (by simpa using hword)
  have hvalue : Derives .conditional [v] (.expr e) :=
    (Derives.primary (.name hv he)).conditional_of_applied
  have hmembers : Derives .members [n, k, v] (.members [.pair name e]) :=
    .lastMember (.pair (by rw [hn]; rfl) hk hvalue)
  exact ⟨v.span, e, he, .braces ho hmembers hc⟩

theorem eval_shorthand (scope : Scope) (name : String) (span : Span) :
    eval scope (.object [.shorthand name span]) = .ok (.object [(name, scope.resolve name)]) := by
  rw [eval, evalMembers, evalMembers]
  rfl

/-- A name that is no literal with a value has its value in the scope. -/
theorem eval_of_ofName {span : Span} {e : Expr} (h : ofName name span = some e)
    (hliteral : name ∉ ["true", "false", "null"])
    (hundefined : scope.resolve "undefined" = .undefined) :
    eval scope e = .ok (scope.resolve name) := by
  simp only [List.mem_cons, List.not_mem_nil, or_false, not_or] at hliteral
  rw [ofName, if_neg hliteral.1, if_neg hliteral.2.1, if_neg hliteral.2.2] at h
  split_ifs at h with hname
  · cases h
    rw [eval, hname, hundefined]
    rfl
  · cases h
    rw [eval]

theorem eval_pair {e : Expr} {v : Value} (h : eval scope e = .ok v) (key : String) :
    eval scope (.object [.pair key e]) = .ok (.object [(key, v)]) := by
  rw [eval, evalMembers, h]
  show (evalMembers scope [(key, v)] []).map Value.object = _
  rw [evalMembers]
  rfl

/-! ## The two sources -/

def shorthandSource (name : String) : String := "\x7b" ++ name ++ "\x7d"

def pairSource (name : String) : String := "\x7b" ++ name ++ ": " ++ name ++ "\x7d"

theorem shorthandSource_eq (front name back : String) :
    front ++ shorthandSource name ++ back =
      String.ofList (front.toList ++ '{' :: (name.toList ++ '}' :: back.toList)) := by
  apply String.toList_injective
  simp [shorthandSource]

theorem pairSource_eq (front name back : String) :
    front ++ pairSource name ++ back = String.ofList
      (front.toList ++
        '{' :: ((name.toList ++ ':' :: ' ' :: name.toList) ++ '}' :: back.toList)) := by
  apply String.toList_injective
  simp [pairSource]

/-- The tokens of a name with itself as the value. -/
theorem IsName.exists_tokensFrom_pair (hname : IsName name) :
    ∃ l, tokensFrom 0 (name.toList ++ ':' :: ' ' :: name.toList) = .ok l ∧
      l.kinds = [.name name, .punct .colon, .name name] := by
  obtain ⟨l, hl, hkinds⟩ := hname.exists_tokensFrom
  have hmoved := tokensFrom_shift (l.stop + 1 + 1) hl
  rw [Nat.zero_add] at hmoved
  have hblank : tokensFrom (l.stop + 1) (' ' :: name.toList) = .ok (l.shift (l.stop + 1 + 1)) := by
    rw [← hmoved]
    exact tokensFrom_blank_append (l.stop + 1) (s := [' ']) rfl name.toList
  refine ⟨_, by rw [tokensFrom_append _ isBreak_colon hl, tokensFrom_colon, hblank]; rfl, ?_⟩
  rw [kinds_append, hkinds]
  show _ ++ _ :: (l.shift (l.stop + 1 + 1)).kinds = _
  rw [kinds_shift, hkinds]
  rfl

theorem AreAlikeInBraces.symm {inner inner' : Lexed}
    (h : AreAlikeInBraces scope scope' inner inner') :
    AreAlikeInBraces scope' scope inner' inner := by
  intro g g' hg hg'
  obtain ⟨ms, ns, hms, hns, halike⟩ := h g' g hg' hg
  exact ⟨ns, ms, hns, hms, halike.symm⟩

theorem areAlikeInBraces_of_kinds {inner inner' : Lexed} (hinner : inner.kinds = [.name name])
    (hinner' : inner'.kinds = [.name name, .punct .colon, .name name])
    (hword : name ∉ ["in", "typeof"]) (hliteral : name ∉ ["true", "false", "null"])
    (hundefined : scope'.resolve "undefined" = .undefined)
    (hnames : ∀ name, scope'.resolve name = scope.resolve name) :
    AreAlikeInBraces scope scope' inner inner' := by
  intro g g' hg hg'
  rw [hinner] at hg
  rw [hinner'] at hg'
  obtain ⟨span, hshorthand⟩ := exists_isObject_shorthand hg
  obtain ⟨span', e, he, hpair⟩ := exists_isObject_pair hword hg'
  refine ⟨_, _, hshorthand, hpair, ?_⟩
  rw [eval_shorthand, eval_pair (eval_of_ofName he hliteral hundefined), hnames]
  exact .refl _

/-! ## Alone

A name in braces alone is the shortest source of each kind. -/

theorem isSource_braces {s : List Char} {inner : Lexed} (hs : tokensFrom 0 s = .ok inner)
    {P : List ObjectMember → Prop} (hobject : ∀ g : List Token,
      g.map Token.kind = .punct .leftBrace :: (inner.kinds ++ [.punct .rightBrace]) →
      ∃ ms, IsObject g ms ∧ P ms) :
    ∃ ms, IsSource .conditional ('{' :: (s ++ ['}'])) (.object ms) ∧ P ms := by
  have hnone : tokensFrom 0 [] = .ok ⟨[], 0⟩ := tokensFrom_of_blank 0 rfl
  obtain ⟨g, us, stop, htokens, hg, hus⟩ := exists_tokensFrom_braces hnone hs hnone
  obtain ⟨ms, hms, hP⟩ := hobject g hg
  obtain rfl : us = [] := List.map_eq_nil_iff.mp hus
  rw [List.append_nil] at htokens
  exact ⟨ms, ⟨_, htokens, hms.primary.primary.conditional_of_applied⟩, hP⟩

theorem IsSource.call_of_ofSource {s : List Char} {e : Expr} {evaluator : Evaluator}
    (he : IsSource .conditional s e) (h : Evaluator.ofSource (String.ofList s) = .ok evaluator)
    (data : Data) : evaluator.call data = eval (.direct (String.ofList s) data) e := by
  rw [he.ofSource] at h
  cases h
  exact he.call_eq data

private theorem resolve_direct_undefined (source : String) (data : Data) :
    (Scope.direct source data).resolve "undefined" = .undefined := by
  rw [resolve_direct]
  rfl

/-- A name in braces, also one that is no expression, is the object of what the name denotes. -/
theorem exists_call_shorthandSource (hname : IsName name) (data : Data) :
    ∃ evaluator, Evaluator.ofSource (shorthandSource name) = .ok evaluator ∧
      evaluator.call data = .ok (.object [(name, denoted data name)]) := by
  obtain ⟨inner, hinner, hkinds⟩ := hname.exists_tokensFrom
  obtain ⟨ms, hms, span, rfl⟩ := isSource_braces (P := fun ms ↦ ∃ span, ms = [.shorthand name span])
    hinner fun g hg ↦ by
      rw [hkinds] at hg
      obtain ⟨span, hobject⟩ := exists_isObject_shorthand hg
      exact ⟨_, hobject, span, rfl⟩
  have hsource : shorthandSource name = String.ofList ('{' :: (name.toList ++ ['}'])) := by
    simpa using shorthandSource_eq "" name ""
  rw [hsource]
  refine ⟨_, hms.ofSource, ?_⟩
  rw [hms.call_eq, eval_shorthand, resolve_direct]

/-- A name in braces with itself as the value is the object of the value of the name. -/
theorem exists_call_pairSource (hname : IsName name) (hword : name ∉ ["in", "typeof"]) (data : Data)
    {v : Value} (hv : ∀ span e, ofName name span = some e →
      eval (.direct (pairSource name) data) e = .ok v) :
    ∃ evaluator, Evaluator.ofSource (pairSource name) = .ok evaluator ∧
      evaluator.call data = .ok (.object [(name, v)]) := by
  obtain ⟨inner, hinner, hkinds⟩ := hname.exists_tokensFrom_pair
  obtain ⟨ms, hms, span, e, he, rfl⟩ := isSource_braces
    (P := fun ms ↦ ∃ span e, ofName name span = some e ∧ ms = [.pair name e]) hinner fun g hg ↦ by
      rw [hkinds] at hg
      obtain ⟨span, e, he, hobject⟩ := exists_isObject_pair hword hg
      exact ⟨_, hobject, span, e, he, rfl⟩
  have hsource : pairSource name =
      String.ofList ('{' :: ((name.toList ++ ':' :: ' ' :: name.toList) ++ ['}'])) := by
    simpa using pairSource_eq "" name ""
  rw [hsource] at hv ⊢
  exact ⟨_, hms.ofSource, by rw [hms.call_eq, eval_pair (hv span e he)]⟩

/-! ## Inside of an expression -/

/-- **A name as a member abbreviates the name with itself as the value**, if it is none of the
literals `true`, `false` and `null`. Both are the object of what the name denotes, and they can
stand for each other in any expression: behind every text that has tokens, so that the brace stands
in no string, and before any text, either both sources are expressions or none is, and on all data
these have the same value, or the same error but for what its message quotes of the source. -/
theorem alike_shorthand_pair (hname : IsName name) (hword : name ∉ ["in", "typeof"])
    (hliteral : name ∉ ["true", "false", "null"]) {front : String}
    (hfront : ∃ lexed, tokenize front = .ok lexed) (back : String) (data : Data) :
    (∃ evaluator, Evaluator.ofSource (shorthandSource name) = .ok evaluator ∧
      evaluator.call data = .ok (.object [(name, denoted data name)])) ∧
    (∃ evaluator, Evaluator.ofSource (pairSource name) = .ok evaluator ∧
      evaluator.call data = .ok (.object [(name, denoted data name)])) ∧
    ((∃ evaluator, Evaluator.ofSource (front ++ shorthandSource name ++ back) = .ok evaluator) ↔
      ∃ evaluator, Evaluator.ofSource (front ++ pairSource name ++ back) = .ok evaluator) ∧
    ∀ evaluator evaluator',
      Evaluator.ofSource (front ++ shorthandSource name ++ back) = .ok evaluator →
      Evaluator.ofSource (front ++ pairSource name ++ back) = .ok evaluator' →
      Alike (evaluator.call data) (evaluator'.call data) := by
  obtain ⟨l, hl⟩ := hfront
  obtain ⟨inner, hinner, hkinds⟩ := hname.exists_tokensFrom
  obtain ⟨inner', hinner', hkinds'⟩ := hname.exists_tokensFrom_pair
  have hnames (source source' : String) (name : String) :
      (Scope.direct source' data).resolve name = (Scope.direct source data).resolve name := by
    rw [resolve_direct, resolve_direct]
  have halike (source source' : String) :
      AreAlikeInBraces (.direct source data) (.direct source' data) inner inner' :=
    areAlikeInBraces_of_kinds hkinds hkinds' hword hliteral (resolve_direct_undefined _ _)
    (hnames _ _)
  refine ⟨exists_call_shorthandSource hname data,
    exists_call_pairSource hname hword data fun span e he ↦ ?_, ?_,
    fun evaluator evaluator' h h' ↦ ?_⟩
  · rw [eval_of_ofName he hliteral (resolve_direct_undefined _ _), resolve_direct]
  · rw [shorthandSource_eq, pairSource_eq, exists_ofSource_iff, exists_ofSource_iff]
    constructor
    · rintro ⟨e, he⟩
      obtain ⟨e', he', -⟩ := he.replace hl hinner hinner' (halike "" "") (hnames "" "")
      exact ⟨e', he'⟩
    · rintro ⟨e, he⟩
      obtain ⟨e', he', -⟩ := he.replace hl hinner' hinner (halike "" "").symm (hnames "" "")
      exact ⟨e', he'⟩
  · rw [shorthandSource_eq] at h
    rw [pairSource_eq] at h'
    obtain ⟨e, he⟩ := exists_ofSource_iff.mp ⟨_, h⟩
    obtain ⟨e', he', hresult⟩ := he.replace hl hinner hinner' (halike _ _) (hnames _ _)
    rw [he.call_of_ofSource h, he'.call_of_ofSource h']
    exact hresult

/-- No entry of the data gives `undefined` a value, as a member or as an expression. -/
theorem alike_shorthand_pair_undefined :
    IsName "undefined" ∧ "undefined" ∉ ["in", "typeof"] ∧ "undefined" ∉ ["true", "false", "null"] ∧
    (∃ lexed, tokenize "typeof " = .ok lexed) ∧
    ∃ evaluator evaluator',
      Evaluator.ofSource ("typeof " ++ shorthandSource "undefined" ++ ".undefined") =
        .ok evaluator ∧
      Evaluator.ofSource ("typeof " ++ pairSource "undefined" ++ ".undefined") = .ok evaluator' ∧
      evaluator.call [("undefined", .null)] = .ok (.string "undefined") ∧
      evaluator'.call [("undefined", .null)] = .ok (.string "undefined") := by
  have hname : IsName "undefined" :=
    ⟨'u', "ndefined".toList, rfl, by decide +kernel, by decide +kernel⟩
  have hword : "undefined" ∉ ["in", "typeof"] := by decide
  have hliteral : "undefined" ∉ ["true", "false", "null"] := by decide
  have hfront : tokenize "typeof " = .ok ⟨[⟨.name "typeof", 0, 6⟩], 7⟩ :=
    tokensFrom_eq_cons (s := "typeof ".toList) rfl rfl rfl (tokensFrom_of_blank 6 rfl)
  have htokens : tokensFrom 0 ("typeof ".toList ++
      '{' :: ("undefined".toList ++ '}' :: ".undefined".toList)) = .ok ⟨[⟨.name "typeof", 0, 6⟩,
        ⟨.punct .leftBrace, 7, 8⟩, ⟨.name "undefined", 8, 17⟩, ⟨.punct .rightBrace, 17, 18⟩,
        ⟨.punct .dot, 18, 19⟩, ⟨.name "undefined", 19, 28⟩], 28⟩ := by
    iterate 6 refine tokensFrom_eq_cons rfl rfl rfl ?_
    exact tokensFrom_of_blank 28 rfl
  have hmembers : Derives .members [⟨.name "undefined", 8, 17⟩]
      (.members [.shorthand "undefined" ⟨8, 17⟩]) := .lastMember (.shorthand rfl)
  have hobject : Derives .applied [⟨.punct .leftBrace, 7, 8⟩, ⟨.name "undefined", 8, 17⟩,
      ⟨.punct .rightBrace, 17, 18⟩] (.expr (.object [.shorthand "undefined" ⟨8, 17⟩])) :=
    .primary (.object rfl hmembers rfl)
  have htypeof : Derives .unary [⟨.name "typeof", 0, 6⟩, ⟨.punct .leftBrace, 7, 8⟩,
      ⟨.name "undefined", 8, 17⟩, ⟨.punct .rightBrace, 17, 18⟩, ⟨.punct .dot, 18, 19⟩,
      ⟨.name "undefined", 19, 28⟩]
      (.expr (.unary .typeof (.member (.object [.shorthand "undefined" ⟨8, 17⟩]) "undefined"))) :=
    .prefixed rfl (.unprefixed (.member hobject rfl rfl))
  have hsource : IsSource .conditional ("typeof ".toList ++
      '{' :: ("undefined".toList ++ '}' :: ".undefined".toList)) _ :=
    ⟨_, htokens, .test ((Derives.operand (l := .multiplicative) htypeof).loosen (by decide))⟩
  obtain ⟨-, -, hiff, halike⟩ := alike_shorthand_pair hname hword hliteral ⟨_, hfront⟩ ".undefined"
    [("undefined", .null)]
  have hevaluator := hsource.ofSource
  rw [← shorthandSource_eq] at hevaluator
  obtain ⟨evaluator', hevaluator'⟩ := hiff.mp ⟨_, hevaluator⟩
  have hcall := hsource.call_eq [("undefined", .null)]
  rw [eval, eval, eval_shorthand, resolve_direct, ← shorthandSource_eq] at hcall
  exact ⟨hname, hword, hliteral, ⟨_, hfront⟩, _, evaluator', hevaluator, hevaluator', hcall,
    (halike _ _ hevaluator hevaluator').eq_ok hcall⟩

/-- **As a member the name `true` is not the literal**: it is undefined, and with itself as the
value it is true. -/
theorem shorthand_ne_pair_true :
    ∃ evaluator evaluator', Evaluator.ofSource (shorthandSource "true") = .ok evaluator ∧
      Evaluator.ofSource (pairSource "true") = .ok evaluator' ∧
      evaluator.call [] = .ok (.object [("true", .undefined)]) ∧
      evaluator'.call [] = .ok (.object [("true", .bool true)]) ∧
      evaluator.call [] ≠ evaluator'.call [] := by
  have hname : IsName "true" := ⟨'t', "rue".toList, rfl, by decide +kernel, by decide +kernel⟩
  obtain ⟨evaluator, h, hcall⟩ := exists_call_shorthandSource hname []
  have hvalue (span : Span) (e : Expr) (he : ofName "true" span = some e) :
      eval (.direct (pairSource "true") []) e = .ok (.bool true) := by
    cases he
    rw [eval]
    rfl
  obtain ⟨evaluator', h', hcall'⟩ := exists_call_pairSource hname (by decide) [] hvalue
  refine ⟨evaluator, evaluator', h, h', hcall, hcall', ?_⟩
  have hundefined : denoted [] "true" = .undefined := rfl
  rw [hcall, hcall', hundefined]
  simp

end Expr

end HtmlTemplate

import HtmlTemplate.Proofs.Expr.Extents
import HtmlTemplate.Proofs.Expr.Sources
import HtmlTemplate.Proofs.Text.Slices

/-!
# Results of expressions that stand elsewhere

A message can quote the source, so the errors of an expression depend on the source that it stands
in, and not on its tree alone. They stay the same when the source stands in another one and the tree
is moved there: the spans of a source end inside it, and there the two sources read the same.

The induction is on how the tokens of a phrase stand for it, since the tree alone does not say that
its spans are spans of tokens.

## What can differ

The result of an expression in another source differs in what the error of a call quotes, and in
nothing else. What is quoted is the excerpt at a span of the expression. It is the same text in both
sources if the second one reads like the first from where the expression stands (`ReadsLike`), up to
the end of the last token.
-/

namespace HtmlTemplate.Expr

open Text (width)

/-! ## Quotations -/

/-- Does the second source read like the first one up to so many bytes, only moved? -/
def ReadsLike (n d : Nat) (source source' : List Char) : Prop :=
  ∀ start stop, stop ≤ n →
    Text.slice (start + d) (stop + d) source' = Text.slice start stop source

theorem readsLike_append (before source behind : List Char) :
    ReadsLike (width source) (width before) source (before ++ (source ++ behind)) :=
  fun start _ h ↦ Text.slice_append_append before source behind start h

variable {n d : Nat} {scope scope' : Scope}

theorem calleeText_shift (h : ReadsLike n d scope.source scope'.source) (callee : Expr)
    {span : Span} (hspan : span.stop ≤ n) :
    calleeText scope'.source (callee.shift d) (span.shift d) =
      calleeText scope.source callee span := by
  have hslice : String.ofList (Text.slice (span.shift d).start (span.shift d).stop scope'.source) =
      String.ofList (Text.slice span.start span.stop scope.source) :=
    congrArg String.ofList (h span.start span.stop hspan)
  cases callee <;> rw [shift] <;> first | rfl | exact hslice

theorem EndsWithin.stop_elim {ts : List Token} (h : EndsWithin n ts) {o : Option Token}
    (ho : ∀ t ∈ o, t ∈ ts) : (o.elim default Token.span).stop ≤ n := by
  cases o with
  | none => exact Nat.zero_le n
  | some t => exact h t (ho t rfl)

theorem EndsWithin.stop_spanOf {ts : List Token} (h : EndsWithin n ts) : (spanOf ts).stop ≤ n :=
  Nat.max_le.mpr ⟨h.stop_elim fun _ ↦ List.mem_of_head?, h.stop_elim fun _ ↦ List.mem_of_getLast?⟩

/-! ## Phrases -/

def Phrase.occurrences : Phrase → List (String × Span)
  | expr e => e.occurrences
  | items es => occurrencesAll es
  | members ms => occurrencesMembers ms
  | member m => occurrencesMembers [m]

/-- Does what a phrase stands for, moved, have in the second scope the result of the first? -/
def Phrase.KeepsResult (scope scope' : Scope) (d : Nat) : Phrase → Prop
  | expr e => eval scope' (e.shift d) = eval scope e
  | items es => evalAll scope' (shiftAll d es) = evalAll scope es
  | members ms => ∀ record,
    evalMembers scope' record (shiftMembers d ms) = evalMembers scope record ms
  | member m => ∀ record, evalMembers scope' record [shiftMember d m] = evalMembers scope record [m]

theorem occurrencesMembers_cons (m : ObjectMember) (ms : List ObjectMember) :
    occurrencesMembers (m :: ms) = occurrencesMembers [m] ++ occurrencesMembers ms := by
  cases m with
  | pair key value =>
    rw [occurrencesMembers, occurrencesMembers, occurrencesMembers, List.append_nil]
  | shorthand text span =>
    rw [occurrencesMembers, occurrencesMembers, occurrencesMembers]
    rfl

theorem evalMembers_cons (scope : Scope) (record : Record Value) (m : ObjectMember)
    (ms : List ObjectMember) :
    evalMembers scope record (m :: ms) =
      (evalMembers scope record [m]).bind fun r ↦ evalMembers scope r ms := by
  cases m with
  | pair key value =>
    rw [evalMembers, evalMembers]
    rcases eval scope value with err | v
    · rfl
    · show evalMembers scope _ ms = Except.bind (evalMembers scope _ []) _
      rw [evalMembers]
      rfl
  | shorthand text span =>
    rw [evalMembers, evalMembers, evalMembers]
    rfl

theorem occurrences_apply (op : Operator) (a b : Expr) :
    (op.apply a b).occurrences = a.occurrences ++ b.occurrences := by
  cases op <;> rw [Operator.apply.eq_def] <;> exact occurrences.eq_def _

private theorem eval_apply (op : Operator) {a b a' b' : Expr} (ha : eval scope' a' = eval scope a)
    (hb : eval scope' b' = eval scope b) :
    eval scope' (op.apply a' b') = eval scope (op.apply a b) := by
  cases op with
  | binary op =>
    show eval scope' (.binary op a' b') = eval scope (.binary op a b)
    rw [eval, eval, ha, hb]
  | logical op =>
    show eval scope' (.logical op a' b') = eval scope (.logical op a b)
    rw [eval, eval, ha, hb]

private theorem eval_shift_of_ofName {text : String} {span : Span} {e : Expr}
    (h : ofName text span = some e) (hnames : scope.AgreeOn scope' e.occurrences) :
    eval scope' (e.shift d) = eval scope e := by
  unfold ofName at h
  split_ifs at h <;> cases h <;> rw [Expr.shift, eval, eval]
  exact congrArg Except.ok (hnames text List.mem_cons_self)

/-- **A phrase keeps its result**, be it a value or an error, when it stands elsewhere in a source
that reads the same there, and its names denote the same. -/
theorem Derives.keepsResult {c : Category} {ts : List Token} {p : Phrase} (h : Derives c ts p)
    (hsource : ReadsLike n d scope.source scope'.source) (hts : EndsWithin n ts)
    (hnames : scope.AgreeOn scope' p.occurrences) : p.KeepsResult scope scope' d := by
  induction h with
  | test _ ih => exact ih hts hnames
  | @conditional _ _ _ _ _ test consequent alternate _ _ _ _ _ ihtest ihthen ihelse =>
    rw [Phrase.occurrences, Expr.occurrences] at hnames
    have htest : eval scope' (test.shift d) = eval scope test := ihtest hts.left hnames.left.left
    have hthen : eval scope' (consequent.shift d) = eval scope consequent :=
      ihthen hts.right.tail.left hnames.left.right
    have helse : eval scope' (alternate.shift d) = eval scope alternate :=
      ihelse hts.right.tail.right.tail hnames.right
    rw [Phrase.KeepsResult, Expr.shift, eval, eval, htest, hthen, helse]
  | operand _ ih => exact ih hts hnames
  | operation _ _ _ ihleft ihright =>
    rw [Phrase.occurrences, occurrences_apply] at hnames
    rw [Phrase.KeepsResult, shift_apply]
    exact eval_apply _ (ihleft hts.left hnames.left) (ihright hts.right.tail hnames.right)
  | unprefixed _ ih => exact ih hts hnames
  | @prefixed _ _ _ operand _ _ ih =>
    rw [Phrase.occurrences, Expr.occurrences] at hnames
    have hoperand : eval scope' (operand.shift d) = eval scope operand := ih hts.tail hnames
    rw [Phrase.KeepsResult, Expr.shift, eval, eval, hoperand]
  | primary _ ih => exact ih hts hnames
  | @member _ _ _ _ target _ _ _ ih =>
    rw [Phrase.occurrences, Expr.occurrences] at hnames
    have htarget : eval scope' (target.shift d) = eval scope target := ih hts.left hnames
    rw [Phrase.KeepsResult, Expr.shift, eval, eval, htarget]
  | @index _ _ _ _ target key _ _ _ _ ih ihkey =>
    rw [Phrase.occurrences, Expr.occurrences] at hnames
    have htarget : eval scope' (target.shift d) = eval scope target := ih hts.left hnames.left
    have hkey : eval scope' (key.shift d) = eval scope key :=
      ihkey hts.right.tail.left hnames.right
    rw [Phrase.KeepsResult, Expr.shift, eval, eval, htarget, hkey]
  | @call _ _ _ _ callee arguments _ _ _ _ ih ihitems =>
    rw [Phrase.occurrences, Expr.occurrences] at hnames
    have hcallee : eval scope' (callee.shift d) = eval scope callee := ih hts.left hnames.left
    have hitems : evalAll scope' (shiftAll d arguments) = evalAll scope arguments :=
      ihitems hts.right.tail.left hnames.right
    -- a callee that is no function is quoted in the message
    rw [Phrase.KeepsResult, Expr.shift, eval, eval, hcallee, hitems,
      calleeText_shift hsource callee hts.left.stop_spanOf]
  | number => rw [Phrase.KeepsResult, Expr.shift, eval, eval]
  | string => rw [Phrase.KeepsResult, Expr.shift, eval, eval]
  | name _ he => exact eval_shift_of_ofName he hnames
  | group _ _ _ ih => exact ih hts.tail.left hnames
  | @array _ _ _ items _ _ _ ih =>
    rw [Phrase.occurrences, Expr.occurrences] at hnames
    have hitems : evalAll scope' (shiftAll d items) = evalAll scope items := ih hts.tail.left hnames
    rw [Phrase.KeepsResult, Expr.shift, eval, eval, hitems]
  | @object _ _ _ members _ _ _ ih =>
    rw [Phrase.occurrences, Expr.occurrences] at hnames
    have hmembers : evalMembers scope' [] (shiftMembers d members) = evalMembers scope [] members :=
      ih hts.tail.left hnames []
    rw [Phrase.KeepsResult, Expr.shift, eval, eval, hmembers]
  | noItems => rw [Phrase.KeepsResult, shiftAll, evalAll, evalAll]
  | @lastItem _ e _ ih =>
    rw [Phrase.occurrences, occurrencesAll] at hnames
    have he : eval scope' (e.shift d) = eval scope e := ih hts hnames.left
    rw [Phrase.KeepsResult, shiftAll, shiftAll, evalAll, evalAll, evalAll, evalAll, he]
  | @item _ _ _ e es _ _ _ ih ihmore =>
    rw [Phrase.occurrences, occurrencesAll] at hnames
    have he : eval scope' (e.shift d) = eval scope e := ih hts.left hnames.left
    have hes : evalAll scope' (shiftAll d es) = evalAll scope es :=
      ihmore hts.right.tail hnames.right
    rw [Phrase.KeepsResult, shiftAll, evalAll, evalAll, he, hes]
  | noMembers =>
    intro record
    rw [shiftMembers, evalMembers, evalMembers]
  | lastMember _ ih =>
    intro record
    rw [shiftMembers_cons, shiftMembers]
    exact ih hts hnames record
  | @moreMembers _ _ _ m ms _ _ _ ih ihmore =>
    rw [Phrase.occurrences, occurrencesMembers_cons] at hnames
    intro record
    have hm : evalMembers scope' record [shiftMember d m] = evalMembers scope record [m] :=
      ih hts.left hnames.left record
    have hms (r : Record Value) :
        evalMembers scope' r (shiftMembers d ms) = evalMembers scope r ms :=
      ihmore hts.right.tail hnames.right r
    rw [shiftMembers_cons, evalMembers_cons, evalMembers_cons scope, hm]
    simp only [hms]
  | @pair _ _ _ key _ value _ _ _ ih =>
    rw [Phrase.occurrences, occurrencesMembers] at hnames
    intro record
    have hvalue : eval scope' (value.shift d) = eval scope value := ih hts.tail.tail hnames.left
    rw [shiftMember, evalMembers, evalMembers, hvalue]
    simp only [evalMembers]
  | @shorthand t key =>
    rw [Phrase.occurrences, occurrencesMembers] at hnames
    intro record
    rw [shiftMember, evalMembers, evalMembers, hnames key List.mem_cons_self, evalMembers,
      evalMembers]

/-! ## Sources -/

/-- **An expression keeps its result inside another source**, if its names denote the same there. -/
theorem IsSource.eval_shift {c : Category} {before s behind : List Char} {e : Expr}
    (he : IsSource c s e) (hscope : scope.source = s)
    (hscope' : scope'.source = before ++ (s ++ behind))
    (hnames : scope.AgreeOn scope' e.occurrences) :
    eval scope' (e.shift (width before)) = eval scope e := by
  obtain ⟨lexed, hlexed, he⟩ := he
  have hsource : ReadsLike (width s) (width before) scope.source scope'.source := by
    rw [hscope, hscope']
    exact readsLike_append before s behind
  have hts := endsWithin_of_tokensFrom hlexed
  rw [Nat.zero_add] at hts
  exact he.keepsResult hsource hts hnames

/-- The result of an expression depends on the data only through its names. -/
theorem IsSource.eval_eq {c : Category} {s : List Char} {e : Expr} (he : IsSource c s e)
    (hscope : scope.source = s) (hscope' : scope'.source = s)
    (hnames : scope.AgreeOn scope' e.occurrences) : eval scope' e = eval scope e := by
  have hsource : scope'.source = [] ++ (s ++ []) := by
    rw [hscope', List.nil_append, List.append_nil]
  have h := he.eval_shift hscope hsource hnames
  rwa [Text.width_nil, shift_zero] at h

end HtmlTemplate.Expr

import HtmlTemplate.Proofs.Text.Scanning
import HtmlTemplate.Proofs.Text.Slices

/-!
# Reading by a cursor

A reader that moves a cursor over a text, at offsets in bytes, looks at what is left and takes
slices between positions where the cursor has been. Unlike reading from a list of characters, this
can go wrong: a slice out of range, or one that cuts through a character, has no meaning, and a loop
need not end. Here the slices are checked and the rounds of a loop are counted, so that a reader
breaks off with a fault where something of that kind happens.

## What is shown of a reader

`Reads source x s a t` says that the reader `x`, at any position where the text `s` is left, gives
`a` and moves the cursor to where `t` is left. So it meets no fault there. Readers behind one
another read behind one another (`Reads.bind`), and a loop reads if every round that goes on takes
something (`exists_reads_loop`).

## What a reader gives at any place

For some claims it does not matter what is in front. `Gives x P` says that wherever the reader is
started, it breaks off or gives what satisfies `P`. This is enough for what every round of a loop
keeps, and it is proved without a text at all.
-/

namespace HtmlTemplate.Markup

open Text (width dropBytes takeBytes)

/-- Why reading by a cursor breaks off. -/
inductive Fault where
  /-- A slice is out of range, or does not begin and end where characters do. -/
  | slice
  /-- A loop takes more rounds, or a call goes deeper, than is allowed. -/
  | rounds
  /-- A start tag has no name. -/
  | unnamed

/-- A computation that moves a cursor, which stands at an offset in bytes. -/
abbrev Cursor (α : Type) := StateT Nat (Except Fault) α

/-- What a round of a loop comes to: another round, or the result of the loop. -/
inductive Round (σ α : Type) where
  | again (state : σ)
  | done (result : α)

namespace Cursor

variable {α β σ : Type}

def cut (start stop : Nat) (s : List Char) : Cursor (List Char) :=
  if start ≤ stop then
    match (dropBytes start s).bind (takeBytes (stop - start)) with
    | some t => pure t
    | none => throw .slice
  else throw .slice

/-- Runs the rounds of a loop, so many at most. -/
def loop (round : σ → Cursor (Round σ α)) : Nat → σ → Cursor α
  | 0, _ => throw .rounds
  | n + 1, state => do
    match ← round state with
    | .again state => loop round n state
    | .done result => pure result

variable (source : List Char)

/-- What is left of the source. -/
def rest : Cursor (List Char) := do cut (← get) (width source) source

def isAtEnd : Cursor Bool := do return width source ≤ (← get)

def advance : Cursor Unit := do
  match ← rest source with
  | [] => pure ()
  | c :: _ => modify (· + c.utf8Size)

def passed (x : Cursor Unit) : Cursor (List Char) := do
  let start ← get
  x
  cut start (← get) source

def startsWith (start : List Char) : Cursor Bool := do return start.isPrefixOf (← rest source)

def consume (start : List Char) : Cursor Bool := do
  if ← startsWith source start then
    modify (· + width start)
    return true
  else return false

/-- Moves to the first occurrence of a text, or else to the end. -/
def moveTo (mark : List Char) : Cursor Unit := do
  match Text.cutAt mark (← rest source) with
  | some (before, _) => modify (· + width before)
  | none => set (width source)

/-- Reads up to the first occurrence of a text, or else to the end. -/
def readUntil (mark : List Char) : Cursor (List Char) := passed source (moveTo source mark)

variable (bound : Nat)

/-- Moves by one character if what is left says so. -/
def advanceRound (goesOn : List Char → Bool) (_ : Unit) : Cursor (Round Unit Unit) := do
  if goesOn (← rest source) then
    advance source
    return .again ()
  else return .done ()

/-- Moves by characters as long as what is left says so. -/
def advanceWhile (goesOn : List Char → Bool) : Cursor Unit :=
  loop (advanceRound source goesOn) bound ()

def readWhile (p : Char → Bool) : Cursor (List Char) :=
  passed source (advanceWhile source bound fun s ↦ s.head?.any p)

def skipBlanks : Cursor Unit := advanceWhile source bound fun s ↦ s.head?.any Text.isBlank

end Cursor

open Cursor

/-! ## Positions

A position is as good as what is left at it: the width of what is left and the position make up the
width of the source. -/

/-- At the position, the text is what is left of the source. -/
def Stands (source : List Char) (p : Nat) (s : List Char) : Prop := dropBytes p source = some s

namespace Stands

variable {source a s : List Char} {p : Nat}

theorem zero (source : List Char) : Stands source 0 source := Text.dropBytes_zero source

/-- What is left and what is passed are the source. -/
theorem width_add (h : Stands source p s) : width s + p = width source :=
  Text.width_of_dropBytes h

theorem append (h : Stands source p (a ++ s)) : Stands source (p + width a) s := by
  rw [Stands, Text.dropBytes_add h]
  exact Text.dropBytes_append a s

theorem nil (source : List Char) : Stands source (width source) [] := by
  have hzero : Stands source 0 (source ++ []) := by
    rw [List.append_nil]
    exact zero source
  have hend := hzero.append
  rwa [Nat.zero_add] at hend

/-- Where less is left, the position is further on. -/
theorem lt_of_width_lt {q : Nat} {t : List Char} (hs : Stands source p s) (ht : Stands source q t)
    (h : width t < width s) : p < q := by
  have := hs.width_add
  have := ht.width_add
  omega

/-- At the end of the source, nothing is left. -/
theorem eq_width (h : Stands source p []) : p = width source := by
  have := h.width_add
  rwa [Text.width_nil, Nat.zero_add] at this

end Stands

/-- Where `s` is left, the reader gives `a` and stops where `t` is left, which is not before. -/
structure Reads {α : Type} (source : List Char) (x : Cursor α) (s : List Char) (a : α)
    (t : List Char) : Prop where
  run : ∀ p, Stands source p s → ∃ q, x.run p = .ok (a, q) ∧ Stands source q t
  width_le : width t ≤ width s

/-! ## Reading one thing after another -/

section Reads

variable {α β σ : Type} {source s t u : List Char} {a : α} {b : β}

theorem reads_pure (a : α) (s : List Char) : Reads source (pure a) s a s :=
  ⟨fun p hp ↦ ⟨p, rfl, hp⟩, Nat.le_refl _⟩

theorem Reads.bind {x : Cursor α} {f : α → Cursor β} (hx : Reads source x s a t)
    (hf : Reads source (f a) t b u) : Reads source (x >>= f) s b u := by
  refine ⟨fun p hp ↦ ?_, Nat.le_trans hf.width_le hx.width_le⟩
  obtain ⟨q, hq, ht⟩ := hx.run p hp
  obtain ⟨r, hr, hu⟩ := hf.run q ht
  refine ⟨r, ?_, hu⟩
  rw [StateT.run_bind, hq]
  exact hr

/-- Reading on, where a test succeeds. -/
theorem Reads.ite_of_true {x : Cursor Bool} {f g : Cursor β} (hx : Reads source x s true t)
    (hf : Reads source f t b u) : Reads source (do if ← x then f else g) s b u := hx.bind hf

theorem Reads.ite_of_false {x : Cursor Bool} {f g : Cursor β} (hx : Reads source x s false t)
    (hg : Reads source g t b u) : Reads source (do if ← x then f else g) s b u := hx.bind hg

/-- A round that goes on takes something, so that a loop ends. What is shown of the result of a loop
is handed on from round to round. -/
theorem exists_reads_loop {round : σ → Cursor (Round σ α)} {I : σ → List Char → Prop}
    {Post : σ → List Char → α → List Char → Prop}
    (step : ∀ state s, I state s →
      (∃ a t, Reads source (round state) s (.done a) t ∧ Post state s a t) ∨
      ∃ state' s', Reads source (round state) s (.again state') s' ∧ width s' < width s ∧
        I state' s' ∧ ∀ a t, Post state' s' a t → Post state s a t)
    {n : Nat} {state : σ} (h : I state s) (hn : width s < n) :
    ∃ a t, Reads source (loop round n state) s a t ∧ Post state s a t := by
  induction n generalizing state s with
  | zero => exact absurd hn (Nat.not_lt_zero _)
  | succ n ih =>
    rcases step state s h with ⟨a, t, hround, hpost⟩ | ⟨state', s', hround, hlt, h', hpost⟩
    · exact ⟨a, t, hround.bind (reads_pure a t), hpost⟩
    · obtain ⟨a, t, hloop, hpost'⟩ := ih h' (by omega)
      exact ⟨a, t, hround.bind hloop, hpost a t hpost'⟩

/-! ## Looking and moving -/

theorem reads_cut (source a b c s : List Char) :
    Reads source (cut (width a) (width a + width b) (a ++ (b ++ c))) s b s := by
  rw [cut, if_pos (Nat.le_add_right _ _), Nat.add_sub_cancel_left, Text.dropBytes_append,
    Option.bind_some, Text.takeBytes_append]
  exact reads_pure b s

theorem reads_rest (source s : List Char) : Reads source (rest source) s s s := by
  refine ⟨fun p hp ↦ ⟨p, ?_, hp⟩, Nat.le_refl _⟩
  have hwidth := hp.width_add
  have hstop : width source - p = width s := by omega
  have htake : takeBytes (width s) s = some s := by
    have := Text.takeBytes_append s []
    rwa [List.append_nil] at this
  have hcut : (cut p (width source) source).run p = .ok (s, p) := by
    rw [cut, if_pos (by omega), hstop, hp, Option.bind_some, htake]
    rfl
  exact hcut

theorem reads_isAtEnd (source s : List Char) : Reads source (isAtEnd source) s s.isEmpty s := by
  refine ⟨fun p hp ↦ ⟨p, ?_, hp⟩, Nat.le_refl _⟩
  have hwidth := hp.width_add
  have hempty : decide (width source ≤ p) = s.isEmpty := by
    rcases s with _ | ⟨c, s⟩
    · exact decide_eq_true (by rw [Text.width_nil] at hwidth; omega)
    · have := c.utf8Size_pos
      rw [Text.width_cons] at hwidth
      exact decide_eq_false (by omega)
  rw [← hempty]
  rfl

/-- Moving by the width of what is in front. -/
theorem reads_modify (source a s : List Char) :
    Reads source (modify (· + width a)) (a ++ s) () s := by
  refine ⟨fun p hp ↦ ⟨p + width a, rfl, hp.append⟩, ?_⟩
  rw [Text.width_append]
  exact Nat.le_add_left _ _

theorem reads_advance (source s : List Char) : Reads source (advance source) s () (s.drop 1) := by
  rcases s with _ | ⟨c, s⟩
  · exact (reads_rest source []).bind (reads_pure () [])
  · exact (reads_rest source (c :: s)).bind (reads_modify source [c] s)

theorem reads_startsWith (source start s : List Char) :
    Reads source (startsWith source start) s (start.isPrefixOf s) s :=
  (reads_rest source s).bind (reads_pure _ s)

theorem reads_startsWith_false {start : List Char} (source : List Char) (h : ¬start <+: s) :
    Reads source (startsWith source start) s false s := by
  have hread := reads_startsWith source start s
  rwa [Bool.eq_false_iff.mpr (mt List.isPrefixOf_iff_prefix.mp h)] at hread

theorem reads_consume (source start s : List Char) :
    Reads source (consume source start) (start ++ s) true s := by
  have hstart : start.isPrefixOf (start ++ s) = true :=
    List.isPrefixOf_iff_prefix.mpr (List.prefix_append start s)
  refine (reads_startsWith source start (start ++ s)).bind ?_
  rw [hstart]
  exact (reads_modify source start s).bind (reads_pure true s)

theorem reads_consume_false {start : List Char} (source : List Char) (h : ¬start <+: s) :
    Reads source (consume source start) s false s :=
  (reads_startsWith_false source h).ite_of_false (reads_pure false s)

theorem Reads.passed {x : Cursor Unit} {a : List Char} (h : Reads source x s () t)
    (hs : a ++ t = s) : Reads source (passed source x) s a t := by
  subst hs
  refine ⟨fun p hp ↦ ?_, h.width_le⟩
  obtain ⟨q, hq, ht⟩ := h.run p hp
  refine ⟨q, ?_, ht⟩
  have hstart := hp.width_add
  have hstop := ht.width_add
  rw [Text.width_append] at hstart
  have hle : p ≤ q := by omega
  have hpassed : q - p = width a := by omega
  have hcut : (cut p q source).run q = .ok (a, q) := by
    rw [cut, if_pos hle, hpassed, hp, Option.bind_some, Text.takeBytes_append]
    rfl
  have hrun : (Cursor.passed source x).run p = (x.run p).bind fun r ↦ (cut p r.2 source).run r.2 :=
    rfl
  rw [hrun, hq]
  exact hcut

theorem reads_readUntil {mark a b : List Char} (source : List Char)
    (h : Text.cutAt mark s = some (a, b)) :
    Reads source (readUntil source mark) s a (mark ++ b) := by
  obtain rfl := Text.append_of_cutAt h
  refine Reads.passed ((reads_rest source _).bind ?_) rfl
  rw [h]
  exact reads_modify source a (mark ++ b)

theorem reads_readUntil_of_none {mark : List Char} (source : List Char)
    (h : Text.cutAt mark s = none) : Reads source (readUntil source mark) s s [] := by
  refine Reads.passed ((reads_rest source s).bind ?_) (List.append_nil s)
  rw [h]
  exact ⟨fun p _ ↦ ⟨width source, rfl, .nil source⟩, Nat.zero_le _⟩

/-! ## Loops over characters

A loop over characters stops where a test on what is left says so. The test is the same one that
takes characters off a list. -/

theorem reads_advanceRound {goesOn : List Char → Bool} (source : List Char) (c : Char)
    (t : List Char) (h : goesOn (c :: t) = true) :
    Reads source (advanceRound source goesOn ()) (c :: t) (.again ()) t := by
  refine (reads_rest source _).bind ?_
  rw [if_pos h]
  exact (reads_advance source (c :: t)).bind (reads_pure _ t)

theorem reads_advanceRound_of_stop {goesOn : List Char → Bool} (source : List Char)
    (h : goesOn s = false) : Reads source (advanceRound source goesOn ()) s (.done ()) s := by
  refine (reads_rest source s).bind ?_
  rw [h]
  exact reads_pure _ s

variable {bound : Nat}

/-- Moving by characters ends where `f` says, which looks at what is left in the same way. -/
theorem reads_advanceWhile {goesOn : List Char → Bool} {f : List Char → List Char}
    (hstop : ∀ s, goesOn s = false → f s = s)
    (hgo : ∀ s, goesOn s = true → ∃ c t, s = c :: t ∧ f s = f t) (hbound : width s < bound) :
    Reads source (advanceWhile source bound goesOn) s () (f s) := by
  have hround : ∀ (state : Unit) s, True →
      (∃ a t, Reads source (advanceRound source goesOn state) s (.done a) t ∧ t = f s) ∨
      ∃ state' s', Reads source (advanceRound source goesOn state) s (.again state') s' ∧
        width s' < width s ∧ True ∧ ∀ (_ : Unit) t, t = f s' → t = f s := by
    intro _ s _
    by_cases hs : goesOn s = true
    · obtain ⟨c, t, rfl, hf⟩ := hgo s hs
      have hlt : width t < width (c :: t) := by
        have := c.utf8Size_pos
        rw [Text.width_cons]
        omega
      exact Or.inr
        ⟨(), t, reads_advanceRound source c t hs, hlt, trivial, fun _ _ h ↦ h.trans hf.symm⟩
    · rw [Bool.not_eq_true] at hs
      exact Or.inl ⟨(), s, reads_advanceRound_of_stop source hs, (hstop s hs).symm⟩
  obtain ⟨_, _, hloop, rfl⟩ := exists_reads_loop hround trivial hbound
  exact hloop

theorem reads_advanceWhile_head (p : Char → Bool) (hbound : width s < bound) :
    Reads source (advanceWhile source bound fun s ↦ s.head?.any p) s () (s.dropWhile p) := by
  refine reads_advanceWhile (fun s hs ↦ ?_) (fun s hs ↦ ?_) hbound
  · rcases s with _ | ⟨c, t⟩
    · rfl
    · exact List.dropWhile_cons_of_neg (Bool.eq_false_iff.mp hs)
  · rcases s with _ | ⟨c, t⟩
    · exact absurd hs Bool.false_ne_true
    · exact ⟨c, t, rfl, List.dropWhile_cons_of_pos hs⟩

theorem reads_readWhile (p : Char → Bool) (hbound : width s < bound) :
    Reads source (readWhile source bound p) s (s.takeWhile p) (s.dropWhile p) :=
  (reads_advanceWhile_head p hbound).passed List.takeWhile_append_dropWhile

theorem reads_skipBlanks (hbound : width s < bound) :
    Reads source (skipBlanks source bound) s () (Text.trimStart s) :=
  reads_advanceWhile_head Text.isBlank hbound

end Reads

/-! ## What a reader gives -/

section Gives

variable {α β σ : Type} {x : Cursor α} {f : α → Cursor β} {P : α → Prop} {Q : β → Prop}

/-- Wherever it is started, the reader breaks off or gives what satisfies `P`. -/
def Gives (x : Cursor α) (P : α → Prop) : Prop := ∀ p a q, x.run p = .ok (a, q) → P a

theorem gives_pure {a : α} (h : P a) : Gives (pure a) P := by
  intro p b q hrun
  cases hrun
  exact h

theorem gives_throw (e : Fault) : Gives (throw e) P := fun _ _ _ hrun ↦ nomatch hrun

theorem Gives.bind (hx : Gives x P) (hf : ∀ a, P a → Gives (f a) Q) : Gives (x >>= f) Q := by
  intro p b q hrun
  rw [StateT.run_bind] at hrun
  rcases hxrun : x.run p with e | ⟨a, r⟩
  · rw [hxrun] at hrun
    cases hrun
  · rw [hxrun] at hrun
    exact hf a (hx p a r hxrun) r b q hrun

theorem gives_bind (hf : ∀ a, Gives (f a) Q) : Gives (x >>= f) Q := by
  have hx : Gives x fun _ ↦ True := fun _ _ _ _ ↦ trivial
  exact hx.bind fun a _ ↦ hf a

theorem gives_ite {c : Bool} {y : Cursor α} (hx : Gives x P) (hy : Gives y P) :
    Gives (if c then x else y) P := by
  by_cases hc : c = true
  · rwa [if_pos hc]
  · rwa [if_neg hc]

/-- Does the state that a round hands on satisfy `I`, or else the result `P`? -/
def Round.All (I : σ → Prop) (P : α → Prop) : Round σ α → Prop
  | .again state => I state
  | .done a => P a

/-- What holds of the state from round to round holds when the loop ends. -/
theorem gives_loop {round : σ → Cursor (Round σ α)} {I : σ → Prop}
    (hround : ∀ state, I state → Gives (round state) (Round.All I P)) (n : Nat) {state : σ}
    (h : I state) : Gives (loop round n state) P := by
  induction n generalizing state with
  | zero => exact gives_throw _
  | succ n ih =>
    refine (hround state h).bind fun r hr ↦ ?_
    rcases r with state' | a
    · exact ih hr
    · exact gives_pure hr

end Gives

end HtmlTemplate.Markup

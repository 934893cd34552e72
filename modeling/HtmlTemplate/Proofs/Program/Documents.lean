import HtmlTemplate.Program.Config
import Mathlib.Data.List.Induction
import Mathlib.Tactic.Common

/-!
# Configuration documents

A configuration file is an object or an array. An object says something about an option by the one
member of its name, whose value has to be of the right kind; the values of other members are of no
concern (`foldlM_addMember_eq_some_iff`). An array has the options in a fixed order and may end
early. Nothing else is a configuration (`ofText?_eq_some_iff`).

## What is not looked at

The members of a name that is not known are skipped with their values, whatever these are, and may
repeat. A known name must not occur twice, even with the same value. So what a document says about
an option depends on the members of that name and on nothing else (`Says`).
-/

namespace HtmlTemplate

namespace Json

variable {α : Type} {bound depth : Nat} {rules : Rules} {s t : List Char}

theorem Read.value_of_of? {p : α × List Char} {r : Read α bound} (h : Read.of? bound p = some r) :
    r.value = p.1 := by
  rw [Read.of?] at h
  split_ifs at h
  cases h
  rfl

theorem exists_object_of_value? {r : Read Json s.length} (h : value? rules depth s = some r)
    (hs : dropSpace s = '{' :: t) : ∃ members, r.value = object members := by
  rw [value?] at h
  split at h
  · rename_i heq
    cases hs.symm.trans heq
  · rename_i heq
    cases hs.symm.trans heq
    cases depth with
    | zero => simp at h
    | succ depth =>
      simp only [if_neg (show '{' ≠ '[' by decide), if_true] at h
      split at h
      · exact ⟨[], Read.value_of_of? h⟩
      · obtain ⟨⟨members, rest, hrest⟩, -, h⟩ := Option.bind_eq_some_iff.mp h
        cases h
        exact ⟨members, rfl⟩

theorem parse?_ne_array_of_brace {text : String} (h : dropSpace text.toList = '{' :: t)
    (items : List Json) : parse? text ≠ some (array items) := by
  intro hparse
  rw [parse?, parseWithin] at hparse
  split at hparse
  · rename_i r hr
    obtain ⟨members, hobject⟩ := exists_object_of_value? hr h
    split_ifs at hparse
    exact nomatch hobject.symm.trans (Option.some.inj hparse)
  · exact nomatch hparse

theorem dropSpace_of_membersOf? {text : String} {members : List RawMember}
    (h : membersOf? text = some members) : ∃ t, dropSpace text.toList = '{' :: t := by
  rw [membersOf?] at h
  split at h
  · rename_i t ht
    exact ⟨t, ht⟩
  · exact nomatch h

def ofTexts (texts : List String) : Json := array (texts.map string)

end Json

namespace SomeOptions

open Json (RawMember)

variable {α : Type} {members : List RawMember} {m : RawMember} {name text : String}
  {form : α → Json} {o : Option α} {j : Json} {s s₀ : SomeOptions}

/-! ## What a document says -/

/-- What members say under a name that may occur once: nothing, or what the value of the one member
is the form of. -/
inductive Says (members : List RawMember) (name : String) (form : α → Json) : Option α → Prop
  | nothing (h : ∀ m ∈ members, m.name ≠ name) : Says members name form none
  | once {m : RawMember} {x : α} (h : members.filter (·.name = name) = [m])
    (hvalue : Json.parse? (String.ofList m.raw) = some (form x)) : Says members name form (some x)

/-- Is the text a configuration, and what does it say about the options? -/
inductive IsDocument (text : String) : SomeOptions → Prop
  | object {members : List RawMember} {s : SomeOptions} (h : Json.membersOf? text = some members)
    (bindSymbol : Says members "bindSymbol" Json.string s.bindSymbol)
    (priority : Says members "priority" Json.ofTexts s.priority) : IsDocument text s
  | empty (h : Json.parse? text = some (.array [])) : IsDocument text {}
  | symbol {b : String} (h : Json.parse? text = some (.array [.string b])) :
    IsDocument text { bindSymbol := b }
  | both {b : String} {names : List String}
    (h : Json.parse? text = some (.array [.string b, .ofTexts names])) :
    IsDocument text { bindSymbol := b, priority := names }

theorem string?_eq_some_iff {t : String} : string? j = some t ↔ j = .string t := by
  cases j <;> simp [string?]

private theorem mapM_string?_eq_some_iff {items : List Json} {texts : List String} :
    items.mapM string? = some texts ↔ items = texts.map .string := by
  induction items generalizing texts with
  | nil => cases texts <;> simp
  | cons j items ih => cases texts <;> simp [ih, string?_eq_some_iff, Option.bind_eq_some_iff]

theorem strings?_eq_some_iff {texts : List String} :
    strings? j = some texts ↔ j = .ofTexts texts := by
  cases j <;> simp [strings?, Json.ofTexts, mapM_string?_eq_some_iff]

/-! ## Members -/

theorem says_nil : Says [] name form o ↔ o = none := by
  constructor
  · rintro (- | ⟨hone, -⟩)
    · rfl
    · exact nomatch hone
  · rintro rfl
    exact .nothing fun m hm ↦ absurd hm List.not_mem_nil

theorem says_append_of_ne (h : m.name ≠ name) :
    Says (members ++ [m]) name form o ↔ Says members name form o := by
  have hfilter : (members ++ [m]).filter (·.name = name) = members.filter (·.name = name) := by
    simp [h]
  constructor
  · rintro (hnone | ⟨hone, hvalue⟩)
    · exact .nothing fun m' hm' ↦ hnone m' (List.mem_append_left _ hm')
    · exact .once (hfilter ▸ hone) hvalue
  · rintro (hnone | ⟨hone, hvalue⟩)
    · refine .nothing fun m' hm' ↦ ?_
      obtain hm' | hm' := List.mem_append.mp hm'
      · exact hnone m' hm'
      · rwa [List.mem_singleton.mp hm']
    · exact .once (hfilter.trans hone) hvalue

theorem says_append_of_eq (h : m.name = name) :
    Says (members ++ [m]) name form o ↔ Says members name form none ∧
      ∃ x, Json.parse? (String.ofList m.raw) = some (form x) ∧ o = some x := by
  have hfilter : (members ++ [m]).filter (·.name = name) =
      members.filter (·.name = name) ++ [m] := by
    simp [h]
  constructor
  · rintro (hnone | ⟨hone, hvalue⟩)
    · exact absurd h (hnone m (by simp))
    · rw [hfilter] at hone
      obtain ⟨hnil, he⟩ := (List.append_eq_singleton_iff.mp hone).resolve_right (by simp)
      cases he
      refine ⟨.nothing fun m' hm' hname ↦ ?_, _, hvalue, rfl⟩
      exact List.not_mem_nil (hnil ▸ List.mem_filter.mpr ⟨hm', decide_eq_true hname⟩)
  · rintro ⟨⟨hnone⟩, x, hvalue, rfl⟩
    have hnil : members.filter (·.name = name) = [] :=
      List.filter_eq_nil_iff.mpr fun m' hm' ↦ by simpa using hnone m' hm'
    exact .once (by rw [hfilter, hnil, List.nil_append]) hvalue

private theorem addMember_of_bindSymbol (h : m.name = "bindSymbol") : addMember s₀ m = some s ↔
    s₀.bindSymbol = none ∧ ∃ b, Json.parse? (String.ofList m.raw) = some (.string b) ∧
      { s₀ with bindSymbol := b } = s := by
  rw [addMember, if_pos h]
  cases s₀.bindSymbol <;> simp [Option.bind_eq_some_iff, string?_eq_some_iff]

private theorem addMember_of_priority (h : m.name = "priority") : addMember s₀ m = some s ↔
    s₀.priority = none ∧ ∃ names, Json.parse? (String.ofList m.raw) = some (.ofTexts names) ∧
      { s₀ with priority := names } = s := by
  have hne : m.name ≠ "bindSymbol" := by simp [h]
  rw [addMember, if_neg hne, if_pos h]
  cases s₀.priority <;> simp [Option.bind_eq_some_iff, strings?_eq_some_iff]

private theorem addMember_of_ne (hb : m.name ≠ "bindSymbol") (hp : m.name ≠ "priority") :
    addMember s₀ m = some s₀ := by
  rw [addMember, if_neg hb, if_neg hp]

/-- **A known name may occur once, and any other member says nothing.** -/
theorem foldlM_addMember_eq_some_iff : members.foldlM addMember {} = some s ↔
    Says members "bindSymbol" Json.string s.bindSymbol ∧
      Says members "priority" Json.ofTexts s.priority := by
  induction members using List.reverseRecOn generalizing s with
  | nil =>
    rw [says_nil, says_nil, List.foldlM_nil]
    cases s
    simp [eq_comm]
  | append_singleton members m ih =>
    have hsnoc : (members ++ [m]).foldlM addMember {} = some s ↔
        ∃ s₀, members.foldlM addMember {} = some s₀ ∧ addMember s₀ m = some s := by
      simp [List.foldlM_append, Option.bind_eq_some_iff]
    simp only [hsnoc, ih]
    by_cases hb : m.name = "bindSymbol"
    · have hp : m.name ≠ "priority" := by simp [hb]
      simp only [says_append_of_eq hb, says_append_of_ne hp, addMember_of_bindSymbol hb]
      constructor
      · rintro ⟨s₀, ⟨hbind, hpriority⟩, hnone, b, hb, rfl⟩
        exact ⟨⟨hnone ▸ hbind, b, hb, rfl⟩, hpriority⟩
      · rintro ⟨⟨hbind, b, hb, heq⟩, hpriority⟩
        exact ⟨{ s with bindSymbol := none }, ⟨hbind, hpriority⟩, rfl, b, hb, by rw [← heq]⟩
    by_cases hp : m.name = "priority"
    · simp only [says_append_of_ne hb, says_append_of_eq hp, addMember_of_priority hp]
      constructor
      · rintro ⟨s₀, ⟨hbind, hpriority⟩, hnone, names, hnames, rfl⟩
        exact ⟨hbind, hnone ▸ hpriority, names, hnames, rfl⟩
      · rintro ⟨hbind, hpriority, names, hnames, heq⟩
        exact ⟨{ s with priority := none }, ⟨hbind, hpriority⟩, rfl, names, hnames, by rw [← heq]⟩
    · simp only [says_append_of_ne hb, says_append_of_ne hp, addMember_of_ne hb hp,
        Option.some.injEq, exists_eq_right]

/-! ## Texts

A text that begins with a brace is read as an object. Any other is read as a whole value, and counts
only if that is an array. -/

private theorem ofArray?_eq_some_iff : ofArray? j = some s ↔
    j = .array [] ∧ {} = s ∨ (∃ b, j = .array [.string b] ∧ { bindSymbol := b } = s) ∨
      ∃ b names, j = .array [.string b, .ofTexts names] ∧
        { bindSymbol := b, priority := names } = s := by
  fun_cases ofArray? j with
  | case1 => simp
  | case2 b => simp [Option.bind_eq_some_iff, string?_eq_some_iff]
  | case3 b p =>
    simp [Option.bind_eq_some_iff, string?_eq_some_iff, strings?_eq_some_iff, and_assoc]
  | case4 _ h0 h1 h2 =>
    constructor
    · intro h
      exact nomatch h
    rintro (⟨rfl, -⟩ | ⟨b, rfl, -⟩ | ⟨b, names, rfl, -⟩)
    · exact (h0 rfl).elim
    · exact (h1 _ rfl).elim
    · exact (h2 _ _ rfl).elim

private theorem ofText?_of_not_brace (h : ∀ t, Json.dropSpace text.toList ≠ '{' :: t) :
    ofText? text = (Json.parse? text).bind ofArray? := by
  rw [ofText?]
  split
  · rename_i t ht
    exact absurd ht (h t)
  · rfl

private theorem ofText?_of_array {items : List Json} (h : Json.parse? text = some (.array items)) :
    ofText? text = ofArray? (.array items) := by
  rw [ofText?_of_not_brace fun t ht ↦ Json.parse?_ne_array_of_brace ht items h, h, Option.bind_some]

/-- **What a configuration file says.** -/
theorem ofText?_eq_some_iff : ofText? text = some s ↔ IsDocument text s := by
  constructor
  · intro h
    rw [ofText?] at h
    split at h
    · obtain ⟨members, hmembers, h⟩ := Option.bind_eq_some_iff.mp h
      obtain ⟨hbind, hpriority⟩ := foldlM_addMember_eq_some_iff.mp h
      exact .object hmembers hbind hpriority
    · obtain ⟨j, hparse, h⟩ := Option.bind_eq_some_iff.mp h
      rcases ofArray?_eq_some_iff.mp h with ⟨rfl, rfl⟩ | ⟨b, rfl, rfl⟩ | ⟨b, names, rfl, rfl⟩
      · exact .empty hparse
      · exact .symbol hparse
      · exact .both hparse
  · intro h
    cases h with
    | object h hbind hpriority =>
      obtain ⟨t, ht⟩ := Json.dropSpace_of_membersOf? h
      simp only [ofText?, ht]
      exact Option.bind_eq_some_iff.mpr
        ⟨_, h, foldlM_addMember_eq_some_iff.mpr ⟨hbind, hpriority⟩⟩
    | empty h => rw [ofText?_of_array h, ofArray?_eq_some_iff]; simp
    | symbol h => rw [ofText?_of_array h, ofArray?_eq_some_iff]; simp
    | both h => rw [ofText?_of_array h, ofArray?_eq_some_iff]; simp

end SomeOptions

end HtmlTemplate

import HtmlTemplate.Proofs.Number.Comparison
import HtmlTemplate.Value.Equality
import Mathlib.Data.List.Nodup
import Mathlib.Data.List.Perm.Subperm
import Mathlib.Tactic.Common

/-!
# The laws of equality

Strict equality is equality of contents between values that hold no NaN (`strictEq_iff`). The
content of a value has a comparand for each number and forgets the order of the members of an
object: it is a function from keys to contents. So that strict equality is symmetric and transitive,
and that it fails between a value and itself exactly if there is a NaN in it, is read off the
content, and needs no induction of its own.

An object has each key once, because a key that is there already is given the new value and is not
put in again. A list of members can have a key twice, so the laws are stated of the values in which
no object does (`HasDistinctKeys`).

Loose equality converts operands until two are left that are compared at once, which it reaches
after two conversions at most (`looseEqWithin_eq`). On what is left it is strict equality or an
equality of numbers.

## Why contents

Strict equality is a recursion over two values at once, in which the order of members is forgotten.
Symmetry and transitivity of such a recursion would need an induction over two and over three
values. Contents are compared by equality, so one induction over two values is enough, and the laws
of equality are those of equality in Lean.
-/

namespace HtmlTemplate

/-! ## Records with distinct keys -/

namespace Record

variable {α : Type} {r s : Record α} {key : String} {v : α}

theorem get?_eq_none_iff : r.get? key = none ↔ key ∉ r.keys := by
  induction r with
  | nil => simp [keys]
  | cons entry r ih =>
    obtain ⟨k, w⟩ := entry
    rw [get?_cons, keys, List.map_cons, List.mem_cons, not_or, ← keys, ← ih, eq_comm (a := key)]
    split_ifs with hk
    · simp [hk]
    · simp [hk]

theorem mem_keys_of_get? (h : r.get? key = some v) : key ∈ r.keys := by
  by_contra hkey
  rw [get?_eq_none_iff.mpr hkey] at h
  cases h

theorem exists_get?_of_mem_keys (h : key ∈ r.keys) : ∃ v, r.get? key = some v :=
  Option.ne_none_iff_exists'.mp fun hnone ↦ get?_eq_none_iff.mp hnone h

private theorem mem_keys_insert {k : String} (h : k ∈ (r.insert key v).keys) :
    k = key ∨ k ∈ r.keys := by
  obtain ⟨w, hw⟩ := exists_get?_of_mem_keys h
  rw [get?_insert] at hw
  split_ifs at hw with hkey
  · exact Or.inl hkey.symm
  · exact Or.inr (mem_keys_of_get? hw)

/-- An insertion keeps the keys distinct. -/
theorem nodup_keys_insert (h : r.keys.Nodup) : (r.insert key v).keys.Nodup := by
  induction r with
  | nil => exact List.nodup_singleton key
  | cons entry r ih =>
    obtain ⟨k, w⟩ := entry
    rw [keys, List.map_cons, List.nodup_cons] at h
    rw [insert]
    split_ifs with hkey
    · exact List.nodup_cons.mpr h
    · refine List.nodup_cons.mpr ⟨fun hmem ↦ ?_, ih h.2⟩
      rcases mem_keys_insert hmem with rfl | hmem
      · exact hkey rfl
      · exact h.1 hmem

theorem mem_keys_of_subset (hs : s.keys.Nodup) (hlength : r.length = s.length)
    (h : s.keys ⊆ r.keys) (hkey : key ∈ r.keys) : key ∈ s.keys := by
  have hle : r.keys.length ≤ s.keys.length := by
    rw [keys, keys, List.length_map, List.length_map]
    exact Nat.le_of_eq hlength
  exact ((List.subperm_of_subset hs h).perm_of_length_le hle).symm.subset hkey

theorem length_eq_of_mem_keys_iff (hr : r.keys.Nodup) (hs : s.keys.Nodup)
    (h : ∀ key, key ∈ r.keys ↔ key ∈ s.keys) : r.length = s.length := by
  have hlength := ((List.perm_ext_iff_of_nodup hr hs).mpr h).length_eq
  rwa [keys, keys, List.length_map, List.length_map] at hlength

end Record

namespace Value

/-! ## What values hold -/

mutual

/-- Has every object in the value each key once, as objects that are built by insertion have? -/
def HasDistinctKeys : Value → Prop
  | array items => ItemsHaveDistinctKeys items
  | object ms => (Record.keys ms).Nodup ∧ MembersHaveDistinctKeys ms
  | function f => CallableHasDistinctKeys f
  | _ => True

def ItemsHaveDistinctKeys : List Value → Prop
  | [] => True
  | v :: vs => v.HasDistinctKeys ∧ ItemsHaveDistinctKeys vs

def MembersHaveDistinctKeys : List (String × Value) → Prop
  | [] => True
  | (_, v) :: ms => v.HasDistinctKeys ∧ MembersHaveDistinctKeys ms

def CallableHasDistinctKeys : Callable → Prop
  | .builtin _ => True
  | .method receiver _ => receiver.HasDistinctKeys

end

mutual

/-- Is there a NaN in the value, at any depth? -/
def holdsNaN : Value → Bool
  | number x => x.isNaN
  | array items => itemsHoldNaN items
  | object ms => membersHoldNaN ms
  | function f => callableHoldsNaN f
  | _ => false

def itemsHoldNaN : List Value → Bool
  | [] => false
  | v :: vs => v.holdsNaN || itemsHoldNaN vs

def membersHoldNaN : List (String × Value) → Bool
  | [] => false
  | (_, v) :: ms => v.holdsNaN || membersHoldNaN ms

def callableHoldsNaN : Callable → Bool
  | .builtin _ => false
  | .method receiver _ => receiver.holdsNaN

end

/-! ## Contents -/

mutual

/-- What strict equality compares. -/
inductive Content where
  | undefined
  | null
  | bool (value : Bool)
  | number (value : Number.Exact)
  | string (value : String)
  | array (items : List Content)
  /-- What is under each key, in no order. -/
  | object (member? : String → Option Content)
  | function (f : CallableContent)

inductive CallableContent where
  | builtin (f : Builtin)
  | method (receiver : Content) (m : Method)

end

mutual

/-- The content of a value. -/
def content : Value → Content
  | undefined => .undefined
  | null => .null
  | bool b => .bool b
  | number x => .number (Number.comparand x)
  | string s => .string s
  | array items => .array (contents items)
  | object ms => .object (contentAt ms)
  | function f => .function (callableContent f)

def contents : List Value → List Content
  | [] => []
  | v :: vs => v.content :: contents vs

def contentAt : List (String × Value) → String → Option Content
  | [], _ => none
  | (k, v) :: ms, key => if k = key then some v.content else contentAt ms key

def callableContent : Callable → CallableContent
  | .builtin f => .builtin f
  | .method receiver m => .method receiver.content m

end

variable {ms ns : List (String × Value)} {key : String} {v : Value}

theorem contentAt_eq (ms : List (String × Value)) (key : String) :
    contentAt ms key = (Record.get? ms key).map content := by
  induction ms with
  | nil => rfl
  | cons m ms ih =>
    obtain ⟨k, v⟩ := m
    rw [contentAt, Record.get?_cons, ih]
    split_ifs <;> rfl

theorem hasDistinctKeys_of_get? (h : MembersHaveDistinctKeys ms)
    (hv : Record.get? ms key = some v) : v.HasDistinctKeys := by
  induction ms with
  | nil => cases hv
  | cons m ms ih =>
    obtain ⟨k, w⟩ := m
    rw [MembersHaveDistinctKeys] at h
    rw [Record.get?_cons] at hv
    split_ifs at hv
    · exact Option.some.inj hv ▸ h.1
    · exact ih h.2 hv

theorem holdsNaN_of_get? (h : membersHoldNaN ms = false) (hv : Record.get? ms key = some v) :
    v.holdsNaN = false := by
  induction ms with
  | nil => cases hv
  | cons m ms ih =>
    obtain ⟨k, w⟩ := m
    rw [membersHoldNaN, Bool.or_eq_false_iff] at h
    rw [Record.get?_cons] at hv
    split_ifs at hv
    · exact Option.some.inj hv ▸ h.1
    · exact ih h.2 hv

theorem membersHoldNaN_eq_false (hkeys : (Record.keys ms).Nodup)
    (h : ∀ key v, Record.get? ms key = some v → v.holdsNaN = false) :
    membersHoldNaN ms = false := by
  induction ms with
  | nil => rfl
  | cons m ms ih =>
    obtain ⟨k, w⟩ := m
    rw [Record.keys, List.map_cons, List.nodup_cons] at hkeys
    rw [membersHoldNaN, Bool.or_eq_false_iff]
    refine ⟨h k w (by rw [Record.get?_cons, if_pos rfl]), ih hkeys.2 fun key v hv ↦ h key v ?_⟩
    have hne : k ≠ key := fun he ↦ hkeys.1 (he ▸ Record.mem_keys_of_get? hv)
    rw [Record.get?_cons, if_neg hne, hv]

/-- Objects have the same content if each key is in both or in neither, with the same content. -/
theorem contentAt_eq_iff : contentAt ms = contentAt ns ↔
    ∀ key, (Record.get? ms key).map content = (Record.get? ns key).map content := by
  rw [funext_iff]
  simp only [contentAt_eq]

/-! ## Strict equality

The induction is over the first value, for all second ones, and follows the nesting of values:
items, members and the receiver of a method. -/

/-- Have two values the same content, with no NaN in it? -/
def IsSame (a b : Value) : Prop :=
  a.content = b.content ∧ a.holdsNaN = false ∧ b.holdsNaN = false

/-- Objects are the same if they have as many members and each member of the one is the same as that
of its key in the other. -/
theorem isSame_object_iff (hms : (Record.keys ms).Nodup) (hns : (Record.keys ns).Nodup) :
    (object ms).IsSame (object ns) ↔ ms.length = ns.length ∧
      ∀ key v, Record.get? ms key = some v → ∃ w, Record.get? ns key = some w ∧ v.IsSame w := by
  rw [IsSame, content, content, Content.object.injEq, contentAt_eq_iff, holdsNaN, holdsNaN]
  constructor
  · rintro ⟨hcontent, hnan, hnan'⟩
    constructor
    · refine Record.length_eq_of_mem_keys_iff hms hns fun key ↦ ?_
      have hnone : Record.get? ms key = none ↔ Record.get? ns key = none := by
        rw [← Option.map_eq_none_iff, hcontent, Option.map_eq_none_iff]
      rw [Record.get?_eq_none_iff, Record.get?_eq_none_iff] at hnone
      exact not_iff_not.mp hnone
    · intro key v hv
      have hkey := hcontent key
      rw [hv, Option.map_some] at hkey
      obtain ⟨w, hw, hvw⟩ := Option.map_eq_some_iff.mp hkey.symm
      exact ⟨w, hw, hvw.symm, holdsNaN_of_get? hnan hv, holdsNaN_of_get? hnan' hw⟩
  · rintro ⟨hlength, hsame⟩
    -- as many keys and every key of the one in the other: the keys are the same
    have hsubset : Record.keys ms ⊆ Record.keys ns := by
      intro key hkey
      obtain ⟨v, hv⟩ := Record.exists_get?_of_mem_keys hkey
      obtain ⟨w, hw, -⟩ := hsame key v hv
      exact Record.mem_keys_of_get? hw
    refine ⟨fun key ↦ ?_, membersHoldNaN_eq_false hms fun key v hv ↦ ?_,
      membersHoldNaN_eq_false hns fun key w hw ↦ ?_⟩
    · rcases hv : Record.get? ms key with _ | v
      · have hkey : key ∉ Record.keys ns := fun hkey ↦ Record.get?_eq_none_iff.mp hv
          (Record.mem_keys_of_subset hms hlength.symm hsubset hkey)
        rw [Record.get?_eq_none_iff.mpr hkey]
      · obtain ⟨w, hw, hvw⟩ := hsame key v hv
        rw [hw, Option.map_some, Option.map_some, hvw.1]
    · obtain ⟨w, -, hvw⟩ := hsame key v hv
      exact hvw.2.1
    · -- the other object has no more keys
      obtain ⟨v, hv⟩ := Record.exists_get?_of_mem_keys
        (Record.mem_keys_of_subset hms hlength.symm hsubset (Record.mem_keys_of_get? hw))
      obtain ⟨w', hw', hvw⟩ := hsame key v hv
      rw [hw] at hw'
      exact Option.some.inj hw' ▸ hvw.2.2

mutual

/-- **Strict equality is equality of contents**, between values that hold no NaN. -/
theorem strictEq_iff : ∀ {a b : Value}, a.HasDistinctKeys → b.HasDistinctKeys →
    (strictEq a b = true ↔ a.IsSame b)
  | undefined, b, _, _ => by cases b <;> simp [strictEq, IsSame, content, holdsNaN]
  | null, b, _, _ => by cases b <;> simp [strictEq, IsSame, content, holdsNaN]
  | bool x, b, _, _ => by cases b <;> simp [strictEq, IsSame, content, holdsNaN]
  | number x, b, _, _ => by
    cases b with
    | number y =>
      rw [strictEq, Number.beq_iff, IsSame, content, content, Content.number.injEq, holdsNaN,
        holdsNaN]
      exact ⟨fun h ↦ ⟨h.1, h.2, Number.isNaN_congr h.1 ▸ h.2⟩, fun h ↦ ⟨h.1, h.2.1⟩⟩
    | _ => simp [strictEq, IsSame, content]
  | string s, b, _, _ => by cases b <;> simp [strictEq, IsSame, content, holdsNaN]
  | array items, b, ha, hb => by
    cases b with
    | array items' =>
      rw [HasDistinctKeys] at ha hb
      rw [strictEq, itemsEq_iff ha hb, IsSame, content, content, Content.array.injEq, holdsNaN,
        holdsNaN]
    | _ => simp [strictEq, IsSame, content]
  | object ms, b, ha, hb => by
    cases b with
    | object ns =>
      rw [HasDistinctKeys] at ha hb
      rw [strictEq, Bool.and_eq_true, beq_iff_eq, membersEq_iff ha.1 ha.2 hb.2,
        isSame_object_iff ha.1 hb.1]
    | _ => simp [strictEq, IsSame, content]
  | function f, b, ha, hb => by
    cases b with
    | function g =>
      rw [HasDistinctKeys] at ha hb
      rw [strictEq, callableEq_iff ha hb, IsSame, content, content, Content.function.injEq,
        holdsNaN, holdsNaN]
    | _ => simp [strictEq, IsSame, content]

theorem itemsEq_iff : ∀ {xs ys : List Value}, ItemsHaveDistinctKeys xs → ItemsHaveDistinctKeys ys →
    (itemsEq xs ys = true ↔
      contents xs = contents ys ∧ itemsHoldNaN xs = false ∧ itemsHoldNaN ys = false)
  | [], ys, _, _ => by
    cases ys <;> simp [itemsEq, contents, itemsHoldNaN]
  | x :: xs, ys, hx, hy => by
    cases ys with
    | nil => simp [itemsEq, contents]
    | cons y ys =>
      rw [ItemsHaveDistinctKeys] at hx hy
      rw [itemsEq, Bool.and_eq_true, strictEq_iff hx.1 hy.1, itemsEq_iff hx.2 hy.2, IsSame,
        contents, contents, List.cons.injEq, itemsHoldNaN, itemsHoldNaN, Bool.or_eq_false_iff,
        Bool.or_eq_false_iff]
      tauto

theorem membersEq_iff : ∀ {ms ns : List (String × Value)}, (Record.keys ms).Nodup →
    MembersHaveDistinctKeys ms → MembersHaveDistinctKeys ns →
    (membersEq ms ns = true ↔ ∀ key v, Record.get? ms key = some v →
      ∃ w, Record.get? ns key = some w ∧ v.IsSame w)
  | [], ns, _, _, _ => by simp [membersEq]
  | (k, x) :: ms, ns, hkeys, hms, hns => by
    rw [Record.keys, List.map_cons, List.nodup_cons] at hkeys
    rw [MembersHaveDistinctKeys] at hms
    have hfirst : (match Record.get? ns k with
        | some y => strictEq x y
        | none => false) = true ↔ ∃ w, Record.get? ns k = some w ∧ x.IsSame w := by
      rcases hk : Record.get? ns k with _ | y
      · simp
      · simp only [Option.some.injEq, exists_eq_left']
        exact strictEq_iff hms.1 (hasDistinctKeys_of_get? hns hk)
    rw [membersEq, Bool.and_eq_true]
    refine (and_congr hfirst (membersEq_iff hkeys.2 hms.2 hns)).trans ?_
    constructor
    · rintro ⟨hx, hmore⟩ key v hv
      rw [Record.get?_cons] at hv
      split_ifs at hv with hkey
      · exact hkey ▸ Option.some.inj hv ▸ hx
      · exact hmore key v hv
    · intro h
      refine ⟨h k x (by rw [Record.get?_cons, if_pos rfl]), fun key v hv ↦ h key v ?_⟩
      have hne : k ≠ key := fun he ↦ hkeys.1 (he ▸ Record.mem_keys_of_get? hv)
      rw [Record.get?_cons, if_neg hne, hv]

theorem callableEq_iff : ∀ {f g : Callable}, CallableHasDistinctKeys f → CallableHasDistinctKeys g →
    (callableEq f g = true ↔ callableContent f = callableContent g ∧
      callableHoldsNaN f = false ∧ callableHoldsNaN g = false)
  | .builtin f, g, _, _ => by
    cases g <;> simp [callableEq, callableContent, callableHoldsNaN]
  | .method x m, g, hf, hg => by
    cases g with
    | builtin g => simp [callableEq, callableContent]
    | method y n =>
      rw [CallableHasDistinctKeys] at hf hg
      rw [callableEq, Bool.and_eq_true, strictEq_iff hf hg, IsSame, beq_iff_eq, callableContent,
        callableContent, CallableContent.method.injEq, callableHoldsNaN, callableHoldsNaN]
      tauto

end

variable {a b c : Value}

theorem IsSame.symm (h : a.IsSame b) : b.IsSame a := ⟨h.1.symm, h.2.2, h.2.1⟩

theorem IsSame.trans (h : a.IsSame b) (h' : b.IsSame c) : a.IsSame c :=
  ⟨h.1.trans h'.1, h.2.1, h'.2.2⟩

theorem isSame_self_iff : a.IsSame a ↔ a.holdsNaN = false :=
  ⟨fun h ↦ h.2.1, fun h ↦ ⟨rfl, h, h⟩⟩

theorem strictEq_comm (ha : a.HasDistinctKeys) (hb : b.HasDistinctKeys) :
    strictEq a b = strictEq b a := by
  rw [Bool.eq_iff_iff, strictEq_iff ha hb, strictEq_iff hb ha]
  exact ⟨IsSame.symm, IsSame.symm⟩

/-! ## Loose equality -/

private theorem isNullish_of_strictEq (h : strictEq a b = true) : a.isNullish = b.isNullish := by
  cases a <;> cases b <;> first | rfl | simp [strictEq] at h

private theorem strictEq_unbool (h : strictEq a b = true) : strictEq a.unbool b.unbool = true := by
  cases a with
  | bool x =>
    cases b with
    | bool y =>
      rw [strictEq, beq_iff_eq] at h
      subst h
      rw [unbool, strictEq]
      cases x <;> decide
    | _ => simp [strictEq] at h
  | _ =>
    cases b with
    | bool y => simp [strictEq] at h
    | _ => exact h

theorem looseEqCoerced_of_strictEq (h : strictEq a b = true) : looseEqCoerced a b = true := by
  cases a <;> cases b <;> first | exact h | simp [strictEq] at h

theorem looseEq_of_strictEq (h : strictEq a b = true) : looseEq a b = true := by
  rw [looseEq, isNullish_of_strictEq h, Bool.or_self, Bool.and_self]
  split_ifs with hb
  · exact hb
  · exact looseEqCoerced_of_strictEq (strictEq_unbool h)

theorem HasDistinctKeys.unbool (h : a.HasDistinctKeys) : a.unbool.HasDistinctKeys := by
  cases a <;> exact h

private theorem looseEqCoerced_comm (ha : a.HasDistinctKeys) (hb : b.HasDistinctKeys) :
    looseEqCoerced a b = looseEqCoerced b a := by
  have hstrict := strictEq_comm ha hb
  -- numbers are compared, or texts, or the values themselves
  cases a <;> cases b <;>
    first | exact hstrict | exact Number.beq_comm _ _ | exact BEq.comm

theorem looseEq_comm (ha : a.HasDistinctKeys) (hb : b.HasDistinctKeys) :
    looseEq a b = looseEq b a := by
  rw [looseEq, looseEq, Bool.or_comm, Bool.and_comm, looseEqCoerced_comm ha.unbool hb.unbool]

/-- Undefined and null are loosely equal to each other and to nothing else. -/
theorem looseEq_of_isNullish (h : a.isNullish = true) : looseEq a b = b.isNullish := by
  rw [looseEq, h, Bool.true_or, Bool.true_and, if_pos rfl]

/-! ## Conversions

A boolean becomes a number, and an array or an object its text. What was converted is a number or a
text, which is not converted again, so each operand is converted once at most. -/

/-- What a comparison does with two operands. -/
inductive LooseStep where
  /-- It is done. -/
  | answer (isEqual : Bool)
  /-- It converts one of them, and compares these two. -/
  | compare (a b : Value)

/-- One step of loose equality: of several conversions that are possible, the first. -/
def looseStep (a b : Value) : LooseStep :=
  match a, b with
  | undefined, undefined | undefined, null | null, undefined | null, null => .answer true
  | undefined, _ | null, _ | _, undefined | _, null => .answer false
  | number _, string _ | string _, number _ => .answer (a.toNumber == b.toNumber)
  | bool _, _ => .compare (number a.toNumber) b
  | _, bool _ => .compare a (number b.toNumber)
  | array _, number _ | array _, string _ | object _, number _ | object _, string _ =>
    .compare (string a.toText) b
  | number _, array _ | number _, object _ | string _, array _ | string _, object _ =>
    .compare a (string b.toText)
  | _, _ => .answer (strictEq a b)

/-- The answer of a comparison, if it is reached with no more than so many conversions. -/
def looseEqWithin : Nat → Value → Value → Option Bool
  | 0, a, b =>
    match looseStep a b with
    | .answer isEqual => some isEqual
    | .compare _ _ => none
  | n + 1, a, b =>
    match looseStep a b with
    | .answer isEqual => some isEqual
    | .compare a' b' => looseEqWithin n a' b'

def conversions : Value → Nat
  | bool _ | array _ | object _ => 1
  | _ => 0

theorem conversions_le (v : Value) : v.conversions ≤ 1 := by
  cases v <;> simp only [conversions, Nat.le_refl, Nat.zero_le]

private theorem strictEq_string (s t : String) :
    strictEq (string s) (string t) = (s == t) := by rw [strictEq]

private theorem looseEq_of_answer {isEqual : Bool} (h : looseStep a b = .answer isEqual) :
    looseEq a b = isEqual := by
  cases a <;> cases b <;> first | cases h; done | (cases h; rfl)

theorem looseEq_of_compare {a' b' : Value} (h : looseStep a b = .compare a' b') :
    looseEq a' b' = looseEq a b ∧
      a'.conversions + b'.conversions + 1 = a.conversions + b.conversions := by
  cases a <;> cases b <;>
    first
    | cases h; done
    | cases h; exact ⟨rfl, rfl⟩
    | cases h; exact ⟨strictEq_string _ _, rfl⟩

/-- **Converting operands ends**, with the answer of loose equality. -/
theorem looseEqWithin_eq {n : Nat} (h : a.conversions + b.conversions ≤ n) :
    looseEqWithin n a b = some (looseEq a b) := by
  induction n generalizing a b with
  | zero =>
    rw [looseEqWithin]
    rcases hstep : looseStep a b with isEqual | ⟨a', b'⟩
    · rw [looseEq_of_answer hstep]
    · have := (looseEq_of_compare hstep).2
      omega
  | succ n ih =>
    rw [looseEqWithin]
    rcases hstep : looseStep a b with isEqual | ⟨a', b'⟩
    · rw [looseEq_of_answer hstep]
    · obtain ⟨hanswer, hfewer⟩ := looseEq_of_compare hstep
      rw [← hanswer]
      exact ih (by omega)

/-! ## The laws -/

/-- **The laws of equality**, of values of any depth whose objects have each key once, as all
objects have that are built by insertion (`Record.nodup_keys_insert`). Strict equality is symmetric
and transitive, and holds between a value and itself if and only if there is no NaN in it. Loose
equality follows from it and is symmetric; undefined and null are loosely equal to each other and to
nothing else; and the comparison that converts operands ends, with this answer. -/
theorem laws_of_equality (ha : a.HasDistinctKeys) (hb : b.HasDistinctKeys)
    (hc : c.HasDistinctKeys) :
    strictEq a b = strictEq b a ∧
    (strictEq a b = true → strictEq b c = true → strictEq a c = true) ∧
    (strictEq a a = true ↔ a.holdsNaN = false) ∧
    (strictEq a b = true → looseEq a b = true) ∧
    looseEq a b = looseEq b a ∧
    (a.isNullish = true → (looseEq a b = true ↔ b.isNullish = true)) ∧
    ∀ n, 2 ≤ n → looseEqWithin n a b = some (looseEq a b) := by
  refine ⟨strictEq_comm ha hb, fun hab hbc ↦ ?_, ?_, looseEq_of_strictEq, looseEq_comm ha hb,
    fun hnull ↦ ?_, fun n hn ↦ looseEqWithin_eq ?_⟩
  · rw [strictEq_iff ha hb] at hab
    rw [strictEq_iff hb hc] at hbc
    exact (strictEq_iff ha hc).mpr (hab.trans hbc)
  · rw [strictEq_iff ha ha, isSame_self_iff]
  · rw [looseEq_of_isNullish hnull]
  · exact Nat.le_trans (Nat.add_le_add a.conversions_le b.conversions_le) hn

/-- Objects that hold the same in another order, one of them a method of an array, are equal both
ways; with a NaN in that array neither is equal to itself. -/
theorem laws_of_equality_nested :
    let ofItem (v : Value) : Value :=
      object [("count", number 2), ("join", function (.method (array [null, v]) .join))]
    let swapped : Value :=
      object [("join", function (.method (array [null, number 1]) .join)), ("count", number 2)]
    (ofItem (number 1)).HasDistinctKeys ∧ swapped.HasDistinctKeys ∧
      strictEq (ofItem (number 1)) swapped = true ∧
      strictEq swapped (ofItem (number 1)) = true ∧
      looseEq (ofItem (number 1)) swapped = true ∧
      looseEqWithin 2 (ofItem (number 1)) swapped = some true ∧
      ¬ strictEq (ofItem (number (0 / 0))) (ofItem (number (0 / 0))) = true := by
  intro ofItem swapped
  have hkeys (v : Value) (hv : v.HasDistinctKeys) : (ofItem v).HasDistinctKeys := by
    simp [ofItem, HasDistinctKeys, MembersHaveDistinctKeys, CallableHasDistinctKeys,
      ItemsHaveDistinctKeys, Record.keys, hv]
  have hone := hkeys (number 1) trivial
  have hnan := hkeys (number (0 / 0)) trivial
  have hswapped : swapped.HasDistinctKeys := by
    simp [swapped, HasDistinctKeys, MembersHaveDistinctKeys, CallableHasDistinctKeys,
      ItemsHaveDistinctKeys, Record.keys]
  have heq : strictEq (ofItem (number 1)) swapped = true := by
    have hnumbers : ((2 : Float) == 2) = true ∧ ((1 : Float) == 1) = true := by decide
    simpa [ofItem, swapped, strictEq, membersEq, callableEq, itemsEq, Record.get?_cons] using
      hnumbers
  obtain ⟨hcomm, -, -, hloose, -, -, hwithin⟩ := laws_of_equality hone hswapped hone
  obtain ⟨-, -, hself, -⟩ := laws_of_equality hnan hnan hnan
  refine ⟨hone, hswapped, heq, hcomm ▸ heq, hloose heq, ?_, fun h ↦ ?_⟩
  · rw [hwithin 2 (Nat.le_refl 2), hloose heq]
  · exact absurd (hself.mp h) (by decide)

end Value

end HtmlTemplate

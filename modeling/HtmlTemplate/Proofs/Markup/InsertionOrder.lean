import HtmlTemplate.Proofs.Markup.Names
import Mathlib.Logic.Function.Basic

/-!
# Attributes as an ordered map

The attributes of an element are a list that every operation searches from the front. If their names
are distinct, this is the same as a finite map in which each name also has the time at which it was
last inserted: the list holds the present names in the order of these times, and each with its value
(`InsertionMap.Represents`).

## The invariant

All times are before the next one. So a name that is inserted gets the last place, which is where
the list has it; a value that is updated changes no time, and what is removed leaves the others in
order. One call keeps the relation and gives the same answer on both sides (`Represents.step`), and
therefore so do all calls of a run.

## Calls

A call is a datum, and so is its answer, so that a run is a list of calls and the two sides can be
compared on it. The map has no order of its own: two maps with the same values and times are the
same, whatever calls led to them.
-/

namespace HtmlTemplate

/-! ## Calls -/

/-- A call that reads or changes the attributes of an element. -/
inductive AttributeCall where
  | set (name value : String)
  /-- Setting as a step of building an element. -/
  | build (name value : String)
  | remove (name : String)
  | has (name : String)
  | get (name : String)
deriving DecidableEq

inductive AttributeCall.Answer where
  | done
  | value (v : Option String)
  | found (b : Bool)
deriving DecidableEq

namespace AttributeCall

def apply (e : Element) : AttributeCall → Answer × Element
  | set name value | build name value => (.done, e.setAttribute name value)
  | remove name =>
    let (old, rest) := e.removeAttribute name
    (.value old, rest)
  | has name => (.found (e.hasAttribute name), e)
  | get name => (.value (e.attribute? name), e)

def run (e : Element) : List AttributeCall → List Answer × Element
  | [] => ([], e)
  | call :: calls =>
    let (answer, f) := call.apply e
    let (answers, g) := run f calls
    (answer :: answers, g)

end AttributeCall

/-! ## The map

Putting a value under a name leaves the values and times of all other names as they are, and
deleting one does too. -/

/-- A map from names to values that keeps the time at which each name was last inserted. -/
structure InsertionMap where
  value? : String → Option String
  /-- When the name was last inserted. -/
  insertedAt : String → Nat
  /-- The time of the next call. -/
  now : Nat

namespace InsertionMap

/-- The map of a list of attributes, inserted one after another. -/
def ofAttributes (as : List Attribute) : InsertionMap where
  value? := Attribute.get? as
  insertedAt name := (as.map Attribute.name).idxOf name
  now := as.length

/-- Puts a value under a name: a name that is present is updated, a missing one inserted. -/
def put (m : InsertionMap) (name value : String) : InsertionMap where
  value? := Function.update m.value? name (some value)
  insertedAt :=
    match m.value? name with
    | some _ => m.insertedAt
    | none => Function.update m.insertedAt name m.now
  now := m.now + 1

/-- Deletes a name. -/
def delete (m : InsertionMap) (name : String) : InsertionMap :=
  { m with value? := Function.update m.value? name none, now := m.now + 1 }

/-- A call on the map: its answer, and the map behind it. -/
def apply (m : InsertionMap) : AttributeCall → AttributeCall.Answer × InsertionMap
  | .set name value | .build name value => (.done, m.put name value)
  | .remove name => (.value (m.value? name), m.delete name)
  | .has name => (.found (m.value? name).isSome, { m with now := m.now + 1 })
  | .get name => (.value (m.value? name), { m with now := m.now + 1 })

/-- Calls in a row: their answers, and the map behind the last one. -/
def run (m : InsertionMap) : List AttributeCall → List AttributeCall.Answer × InsertionMap
  | [] => ([], m)
  | call :: calls =>
    let (answer, m') := m.apply call
    let (answers, m'') := run m' calls
    (answer :: answers, m'')

section

variable (m : InsertionMap) {name key : String} (value : String)

theorem value?_put :
    (m.put name value).value? key = if key = name then some value else m.value? key :=
  Function.update_apply _ _ _ _

theorem value?_delete :
    (m.delete name).value? key = if key = name then none else m.value? key :=
  Function.update_apply _ _ _ _

theorem insertedAt_put_of_ne (h : key ≠ name) :
    (m.put name value).insertedAt key = m.insertedAt key := by
  rcases hold : m.value? name with _ | old
  · rw [put, hold]
    exact Function.update_of_ne h _ _
  · rw [put, hold]

theorem insertedAt_put_of_missing (h : m.value? name = none) :
    (m.put name value).insertedAt name = m.now := by
  rw [put, h]
  exact Function.update_self _ _ _

theorem insertedAt_put_of_present (h : m.value? name ≠ none) :
    (m.put name value).insertedAt = m.insertedAt := by
  obtain ⟨old, hold⟩ := Option.ne_none_iff_exists'.mp h
  rw [put, hold]

end

end InsertionMap

/-! ## Lists of attributes -/

namespace Attribute

theorem get?_eq_none_iff {as : List Attribute} {key : String} :
    get? as key = none ↔ key ∉ as.map name := by
  rw [get?, Option.map_eq_none_iff, List.find?_eq_none, List.mem_map]
  simp only [beq_iff_eq]
  constructor
  · rintro h ⟨a, ha, hname⟩
    exact h a ha hname
  · exact fun h a ha hname ↦ h ⟨a, ha, hname⟩

theorem isSome_get? (as : List Attribute) (key : String) : (get? as key).isSome = has as key := by
  rw [get?, Option.isSome_map, has, List.isSome_find?]

theorem get?_erase_self {as : List Attribute} (key : String) (h : (as.map name).Nodup) :
    get? (erase as key) key = none := by
  rw [get?_eq_none_iff, map_name_erase]
  exact h.not_mem_erase

end Attribute

/-! ## One call -/

/-- Are the attributes a map, in the order in which the names were last inserted? -/
structure InsertionMap.Represents (m : InsertionMap) (as : List Attribute) : Prop where
  /-- Names are distinct. -/
  nodup : (as.map Attribute.name).Nodup
  /-- Each name has the value that the map holds. -/
  value (name : String) : Attribute.get? as name = m.value? name
  /-- The names stand in the order of their last insertions. -/
  order : (as.map Attribute.name).Pairwise fun n n' ↦ m.insertedAt n < m.insertedAt n'
  /-- All of them have been inserted before the next call. -/
  before : ∀ name ∈ as.map Attribute.name, m.insertedAt name < m.now

namespace InsertionMap.Represents

variable {m : InsertionMap} {as : List Attribute}

theorem value?_eq_none_iff (h : m.Represents as) {name : String} :
    m.value? name = none ↔ name ∉ as.map Attribute.name := by
  rw [← h.value, Attribute.get?_eq_none_iff]

private theorem value?_ne_none_iff (h : m.Represents as) {name : String} :
    m.value? name ≠ none ↔ name ∈ as.map Attribute.name := by
  rw [Ne, h.value?_eq_none_iff, not_not]

theorem ofAttributes (h : (as.map Attribute.name).Nodup) :
    (InsertionMap.ofAttributes as).Represents as where
  nodup := h
  value _ := rfl
  order := by
    rw [List.pairwise_iff_getElem]
    intro i j hi hj hij
    show List.idxOf _ _ < List.idxOf _ _
    rwa [h.idxOf_getElem i hi, h.idxOf_getElem j hj]
  before name hname := by
    show List.idxOf _ _ < as.length
    rw [← List.length_map (f := Attribute.name)]
    exact List.idxOf_lt_length_iff.mpr hname

/-- Time goes on. -/
theorem tick (h : m.Represents as) : InsertionMap.Represents { m with now := m.now + 1 } as where
  nodup := h.nodup
  value := h.value
  order := h.order
  before name hname := Nat.lt_succ_of_lt (h.before name hname)

private theorem put (h : m.Represents as) (name value : String) :
    (m.put name value).Represents (Attribute.set name value as) where
  nodup := Attribute.nodup_map_name_set name value h.nodup
  value key := by
    rw [Attribute.get?_set, value?_put, h.value]
    exact if_congr eq_comm rfl rfl
  order := by
    rw [Attribute.map_name_set]
    by_cases hmem : name ∈ as.map Attribute.name
    · rw [if_pos hmem, insertedAt_put_of_present m value (h.value?_ne_none_iff.mpr hmem)]
      exact h.order
    · -- a new name comes behind all others, whose times are not changed
      have hother {n : String} (hn : n ∈ as.map Attribute.name) :
          (m.put name value).insertedAt n = m.insertedAt n :=
        insertedAt_put_of_ne m value (ne_of_mem_of_not_mem hn hmem)
      have hnew := insertedAt_put_of_missing m value (h.value?_eq_none_iff.mpr hmem)
      rw [if_neg hmem, List.pairwise_append]
      refine ⟨?_, List.pairwise_singleton _ _, ?_⟩
      · refine h.order.imp_of_mem fun hn hn' hlt ↦ ?_
        rwa [hother hn, hother hn']
      · intro n hn n' hn'
        rw [List.mem_singleton.mp hn', hother hn, hnew]
        exact h.before n hn
  before n hn := by
    have hmem := Attribute.map_name_set_subset as name value hn
    by_cases hname : n = name
    · subst hname
      by_cases hold : m.value? n = none
      · rw [insertedAt_put_of_missing m value hold]
        exact Nat.lt_succ_self _
      · rw [insertedAt_put_of_present m value hold]
        exact Nat.lt_succ_of_lt (h.before n (h.value?_ne_none_iff.mp hold))
    · rw [insertedAt_put_of_ne m value hname]
      exact Nat.lt_succ_of_lt (h.before n ((List.mem_cons.mp hmem).resolve_left hname))

private theorem delete (h : m.Represents as) (name : String) :
    (m.delete name).Represents (Attribute.erase as name) where
  nodup := (Attribute.map_name_erase_sublist as name).nodup h.nodup
  value key := by
    rw [value?_delete]
    split_ifs with hkey
    · rw [hkey, Attribute.get?_erase_self name h.nodup]
    · rw [Attribute.get?_erase_of_ne (Ne.symm hkey), h.value]
  order := h.order.sublist (Attribute.map_name_erase_sublist as name)
  before n hn :=
    Nat.lt_succ_of_lt (h.before n ((Attribute.map_name_erase_sublist as name).subset hn))

/-- **A call does the same to the attributes and to the map**: it has one answer, and what is left
of the attributes is what is left of the map. Nothing else of the element changes. -/
theorem step {e : Element} (h : m.Represents e.attributes) (call : AttributeCall) :
    (call.apply e).1 = (m.apply call).1 ∧
      (m.apply call).2.Represents (call.apply e).2.attributes ∧
      (call.apply e).2.tag = e.tag ∧ (call.apply e).2.children = e.children := by
  cases call with
  | set name value => exact ⟨rfl, h.put name value, rfl, rfl⟩
  | build name value => exact ⟨rfl, h.put name value, rfl, rfl⟩
  | remove name =>
    rw [AttributeCall.apply, Element.removeAttribute_eq]
    exact ⟨congrArg AttributeCall.Answer.value (h.value name), h.delete name, rfl, rfl⟩
  | has name =>
    refine ⟨congrArg AttributeCall.Answer.found ?_, h.tick, rfl, rfl⟩
    rw [Element.hasAttribute, ← Attribute.isSome_get?, h.value]
  | get name => exact ⟨congrArg AttributeCall.Answer.value (h.value name), h.tick, rfl, rfl⟩

/-- The same of calls in a row. -/
theorem run {e : Element} (h : m.Represents e.attributes) (calls : List AttributeCall) :
    (AttributeCall.run e calls).1 = (m.run calls).1 ∧
      (m.run calls).2.Represents (AttributeCall.run e calls).2.attributes ∧
      (AttributeCall.run e calls).2.tag = e.tag ∧
      (AttributeCall.run e calls).2.children = e.children := by
  induction calls generalizing e m with
  | nil => exact ⟨rfl, h, rfl, rfl⟩
  | cons call calls ih =>
    obtain ⟨hanswer, hnext, htag, hchildren⟩ := h.step call
    obtain ⟨hanswers, hlast, htag', hchildren'⟩ := ih hnext
    exact ⟨congrArg₂ List.cons hanswer hanswers, hlast, htag'.trans htag,
      hchildren'.trans hchildren⟩

end InsertionMap.Represents

/-! ## Runs -/

/-- **Attributes are an ordered map.** On an element with distinct names, calls in any number answer
what a map answers that starts with the same values and is updated by the same calls. Behind them
the names are distinct, each has the value in the map, and they stand in the order in which they
were last inserted; the tag and the children are those of the element. -/
theorem represents_of_run {e : Element} (h : (e.attributes.map Attribute.name).Nodup)
    (calls : List AttributeCall) :
    (AttributeCall.run e calls).1 = ((InsertionMap.ofAttributes e.attributes).run calls).1 ∧
      ((InsertionMap.ofAttributes e.attributes).run calls).2.Represents
        (AttributeCall.run e calls).2.attributes ∧
      (AttributeCall.run e calls).2.tag = e.tag ∧
      (AttributeCall.run e calls).2.children = e.children :=
  (InsertionMap.Represents.ofAttributes h).run calls

/-- A name that was removed and set again stands behind the others, and one that was only set stays
in its place. -/
theorem represents_of_run_moved :
    let e : Element := ⟨"a", [⟨"href", "/"⟩, ⟨"title", "home"⟩, ⟨"id", "x"⟩], []⟩
    let calls : List AttributeCall := [.set "title" "start", .remove "href", .has "href",
      .build "href" "/index", .get "title"]
    (AttributeCall.run e calls).2.attributes =
        [⟨"title", "start"⟩, ⟨"id", "x"⟩, ⟨"href", "/index"⟩] ∧
      (AttributeCall.run e calls).1 =
        [.done, .value (some "/"), .found false, .done, .value (some "start")] ∧
      (AttributeCall.run e calls).1 = ((InsertionMap.ofAttributes e.attributes).run calls).1 ∧
      ((InsertionMap.ofAttributes e.attributes).run calls).2.Represents
        (AttributeCall.run e calls).2.attributes := by
  intro e calls
  have hrun := represents_of_run (e := e) (by decide) calls
  exact ⟨by decide, by decide, hrun.1, hrun.2.1⟩

end HtmlTemplate

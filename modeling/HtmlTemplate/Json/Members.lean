import HtmlTemplate.Json.Parser

/-!
# Members of an object

An object taken apart into the texts of its members, each to be read by whoever knows its name. The
names are read strictly; of the values nothing but their form counts.
-/

namespace HtmlTemplate.Json

/-- A member of an object: its name, and the text of its value. -/
structure RawMember where
  name : String
  raw : List Char

/-- Reads members up to the closing brace; one at least. -/
def rawMembers? (s : List Char) : Option (Read (List RawMember) s.length) := do
  let ⟨name, t, ht⟩ ← memberName? .strict (dropSpace s)
  have hs := length_dropSpace s
  let ⟨_, u, hu⟩ ← value? .formOnly t.length t
  let member : RawMember := ⟨name, t.take (t.length - u.length)⟩
  match _hr : dropSpace u with
  | '}' :: rest => Read.of? s.length ([member], rest)
  | ',' :: v =>
    have hv : v.length < s.length := by
      have := length_dropSpace u
      rw [_hr] at this
      simp only [List.length_cons] at this
      omega
    let ⟨members, rest, h⟩ ← rawMembers? v
    some ⟨member :: members, rest, by omega⟩
  | _ => none
termination_by s.length

/-- The members of a text that is one object. -/
def membersOf? (text : String) : Option (List RawMember) :=
  match dropSpace text.toList with
  | '{' :: s =>
    match dropSpace s with
    | '}' :: rest => if (dropSpace rest).isEmpty then some [] else none
    | _ => do
      let r ← rawMembers? s
      if (dropSpace r.rest).isEmpty then some r.value else none
  | _ => none

end HtmlTemplate.Json

import HtmlTemplate.Value.Basic

/-!
# JSON documents

A document keeps the members of its objects as they are written, repeated names included. As a
value, an object has its members in ascending order of their names, and of a repeated one the last.
-/

namespace HtmlTemplate

/-- A JSON document. -/
inductive Json where
  | null
  | bool (value : Bool)
  | number (value : Float)
  | string (value : String)
  | array (items : List Json)
  | object (members : List (String × Json))

/-- Puts an entry into a record whose names ascend. -/
def Record.insertAscending {α : Type} (key : String) (value : α) : Record α → Record α
  | [] => [(key, value)]
  | (k, v) :: r =>
    if key < k then (key, value) :: (k, v) :: r
    else if k = key then (key, value) :: r
    else (k, v) :: insertAscending key value r

/-- The entries in ascending order of their names; of a repeated name the last. -/
def Record.ascending {α : Type} (entries : List (String × α)) : Record α :=
  entries.foldl (fun r (k, v) ↦ r.insertAscending k v) []

namespace Value

mutual

/-- The value of a document. -/
def ofJson : Json → Value
  | .null => .null
  | .bool b => .bool b
  | .number x => .number x
  | .string s => .string s
  | .array items => .array (ofItems items)
  | .object members => .object (Record.ascending (ofMembers members))

def ofItems : List Json → List Value
  | [] => []
  | j :: rest => ofJson j :: ofItems rest

/-- The values of members, with their names. -/
def ofMembers : List (String × Json) → List (String × Value)
  | [] => []
  | (key, j) :: ms => (key, ofJson j) :: ofMembers ms

end

end Value

/-- The data of a document: the members of an object, and nothing for any other document. -/
def Data.ofJson (j : Json) : Data :=
  match Value.ofJson j with
  | .object members => members
  | _ => []

end HtmlTemplate

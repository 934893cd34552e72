import HtmlTemplate.Proofs.Checked.Numbers
import HtmlTemplate.Proofs.Value.Slicing

/-!
# Values with checked access

Values are converted to texts and numbers item by item, and their parts are taken between positions
that any values may give. A position is kept between zero and the length before it is used, and the
end of a slice is raised to its beginning, so a slice is in range and in order (`slice_eq`). The
search in a text goes by byte offsets, which are the widths of what stands in front
(`indexOfText_eq`).

## Positions

A position argument may be any value. It is converted to a number, counted from the end if it is
negative, and kept between zero and the length; only then is it used. So the equations do not need a
bound on the argument, and the two positions of a slice can come in any order.
-/

namespace HtmlTemplate.Checked

open Text (cutAt)

variable {α : Type}

/-! ## Values -/

mutual

def toText : Value → Checked String
  | .number x => do return String.ofList (← numberChars x)
  | .array items => do return ",".intercalate (← itemTexts items)
  | v => pure v.toText

/-- The texts of array items when they are joined: undefined and null are empty. -/
def itemTexts : List Value → Checked (List String)
  | [] => pure []
  | item :: items => do
    let text ← if item.isNullish then pure "" else toText item
    return text :: (← itemTexts items)

end

def joinItems (separator : String) (items : List Value) : Checked String := do
  return separator.intercalate (← itemTexts items)

def toNumber : Value → Checked Float
  | .string s => ofTrimmed (Text.trim s.toList)
  | .array items => do ofTrimmed (Text.trim (← toText (.array items)).toList)
  | v => pure v.toNumber

mutual

theorem toText_eq (v : Value) : toText v = pure v.toText := by
  cases v with
  | number x => rw [toText, numberChars_eq]; rfl
  | array items => rw [toText, itemTexts_eq items, Value.toText]; rfl
  | _ => rfl

private theorem itemTexts_eq (items : List Value) :
    itemTexts items = pure (Value.itemTexts items) := by
  rcases items with _ | ⟨item, items⟩
  · rfl
  · rw [itemTexts, toText_eq item, itemTexts_eq items]
    cases item <;> rfl

end

theorem joinItems_eq (separator : String) (items : List Value) :
    joinItems separator items = pure (Value.joinItems separator items) := by
  rw [joinItems, itemTexts_eq]
  rfl

theorem toNumber_eq (v : Value) : toNumber v = pure v.toNumber := by
  cases v with
  | string s => exact ofTrimmed_eq _
  | array items =>
    rw [toNumber, toText_eq, pure_bind, ofTrimmed_eq]
    rfl
  | _ => rfl

/-! ## Positions -/

def position (length default : Nat) : Value → Checked Nat
  | .undefined => pure default
  | v => do
    let n := Number.clampTrunc (-length) length (← toNumber v)
    return if n < 0 then (length + n).toNat else n.toNat

/-- The part of a sequence between two position arguments. -/
def slice (xs : List α) (start stop : Value) : Checked (List α) := do
  let start ← position xs.length 0 start
  let stop ← position xs.length xs.length stop
  part start (max stop start) xs

def offsetOf (s : List Char) (i : Nat) : Nat := Text.width (s.take i)

/-- The position of the first occurrence of `needle` at or behind a position argument. The search
goes by byte offsets, and what stands in front of the occurrence is counted. -/
def indexOfText (s needle : List Char) (start : Value) : Checked Float := do
  let i := (Number.clampTrunc 0 s.length (← toNumber start)).toNat
  let offset := offsetOf s i
  if 0 < i ∧ offset = Text.width s ∧ needle ≠ [] then return -1
  match cutAt needle (← textFrom offset s) with
  | some (before, _) => return Number.ofNat (← textTo (offset + Text.width before) s).length
  | none => return -1

def splitParts (s : String) : Value → Checked (List Value)
  | .undefined => pure [.string s]
  | sep => do
    return (splitText s.toList (← toText sep).toList).map fun part ↦ .string (String.ofList part)

def splitValue (s : String) (separator limit : Value) : Checked Value := do
  let parts ← splitParts s separator
  match limit with
  | .undefined => return .array parts
  | limit => return .array (parts.take (Number.clampTrunc 0 parts.length (← toNumber limit)).toNat)

private theorem position_eq (length default : Nat) (v : Value) :
    position length default v = pure (resolvePosition length default v) := by
  cases v <;> simp only [position, resolvePosition, toNumber_eq, pure_bind]

private theorem resolvePosition_le {length default : Nat} (h : default ≤ length) (v : Value) :
    resolvePosition length default v ≤ length := by
  rw [resolvePosition_eq]
  exact placeOf_le h v

/-- **A slice is in range and in order**, whatever its arguments are. -/
theorem slice_eq (xs : List α) (start stop : Value) :
    slice xs start stop = pure (sliceBetween xs start stop) := by
  have hstart := resolvePosition_le (Nat.zero_le xs.length) start
  have hstop := resolvePosition_le (Nat.le_refl xs.length) stop
  rw [slice, position_eq, position_eq, pure_bind, pure_bind,
    part_eq (Nat.le_max_right _ _) (Nat.max_le.mpr ⟨hstop, hstart⟩), sliceBetween]
  congr 2
  omega

/-- Behind the end there is nothing to be found. -/
theorem positionOf_nil {needle : List Char} (h : needle ≠ []) :
    Text.positionOf needle [] = none := by
  rw [Text.positionOf, cutAt, if_neg (by simpa using h)]
  rfl

/-- **The search begins and ends at characters**, so that it gives a position in characters. -/
theorem indexOfText_eq (s needle : List Char) (start : Value) :
    indexOfText s needle start = pure (HtmlTemplate.indexOfText s needle start) := by
  have hle : (Number.clampTrunc 0 s.length start.toNumber).toNat ≤ s.length :=
    Int.toNat_le.mpr (Number.clampTrunc_le (Int.natCast_nonneg _) _)
  rw [indexOfText, toNumber_eq, pure_bind, HtmlTemplate.indexOfText]
  generalize (Number.clampTrunc 0 s.length start.toNumber).toNat = i at hle ⊢
  have hsplit := List.take_append_drop i s
  have hfrom : textFrom (offsetOf s i) s = pure (s.drop i) := by
    refine textFrom_eq ?_
    nth_rewrite 2 [← hsplit]
    exact Text.dropBytes_append _ _
  dsimp only
  by_cases hend : 0 < i ∧ offsetOf s i = Text.width s ∧ needle ≠ []
  · have hnil : s.drop i = [] := by
      by_contra hne
      have hwidth := Text.width_append (s.take i) (s.drop i)
      have hpos := Text.width_pos_of_ne_nil hne
      rw [hsplit, ← hend.2.1, offsetOf] at hwidth
      omega
    rw [if_pos hend, hnil, positionOf_nil hend.2.2]
  rw [if_neg hend, hfrom, pure_bind, Text.positionOf]
  rcases hcut : cutAt needle (s.drop i) with _ | ⟨before, behind⟩
  · rfl
  have hto : textTo (offsetOf s i + Text.width before) s = pure (s.take i ++ before) := by
    refine textTo_eq ?_
    rw [offsetOf, ← Text.width_append]
    nth_rewrite 2 [← hsplit]
    rw [← Text.append_of_cutAt hcut, ← List.append_assoc]
    exact Text.takeBytes_append _ _
  dsimp only
  rw [hto, pure_bind, List.length_append, List.length_take, Nat.min_eq_left hle]
  rfl

theorem splitValue_eq (s : String) (separator limit : Value) :
    splitValue s separator limit = pure (HtmlTemplate.splitValue s separator limit) := by
  have hparts : splitParts s separator = pure (match separator with
      | .undefined => [.string s]
      | sep => (splitText s.toList sep.toText.toList).map fun part ↦
        .string (String.ofList part)) := by
    cases separator <;> simp only [splitParts, toText_eq, pure_bind]
  rw [splitValue, hparts, pure_bind]
  cases limit with
  | undefined => rfl
  | _ =>
    simp only [toNumber_eq, pure_bind]
    rfl

end HtmlTemplate.Checked

import HtmlTemplate.Proofs.Number.WholePart
import HtmlTemplate.Proofs.Value.Methods

/-!
# Slices of strings and arrays

A position argument is cut toward zero, counted from the end if it is below zero, and moved into the
sequence if it is outside (`Whole.position`). A slice is what stands between the positions of its
two arguments, of which the second is not in front of the first (`IsSlice`). Up to a position and
from that position on, two slices are the whole sequence (`callMethod_slice`), since one argument
gives one position, wherever it is used, unless it is undefined.

## Undefined arguments

An argument that is undefined stands for the beginning in the one place and for the end in the
other, so it gives two positions. For every other argument the position depends on the argument and
the length only (`placeOf_of_ne_undefined`), which is what the law about the two slices needs.
-/

namespace HtmlTemplate

open Number (StandsFor Whole whole)

variable {α : Type} {xs part : List α} {a b v : Value} {n : Nat}

/-! ## Positions -/

/-- The position that an integer part gives in a sequence. -/
def Number.Whole.position (length : Nat) : Whole → Nat
  | .infinite negative => if negative then 0 else length
  | .finite n => (max 0 (min (length : Int) (if n < 0 then length + n else n))).toNat

/-- The position that an argument gives in a sequence, if it is not undefined. -/
def placeOf (length default : Nat) : Value → Nat
  | .undefined => default
  | v => (whole v.toNumber).position length

theorem Number.Whole.position_le (length : Nat) (w : Whole) : w.position length ≤ length := by
  cases w with
  | infinite negative => cases negative <;> simp [position]
  | finite n =>
    rw [position]
    omega

theorem Number.Whole.position_natCast (length n : Nat) :
    (Whole.finite n).position length = min n length := by
  rw [position, if_neg (by omega)]
  omega

/-- A defined argument gives the same position, whatever an undefined one would give. -/
theorem placeOf_of_ne_undefined (h : v ≠ .undefined) (length default : Nat) :
    placeOf length default v = (whole v.toNumber).position length := by
  cases v with
  | undefined => exact absurd rfl h
  | _ => rfl

theorem placeOf_le {default : Nat} (h : default ≤ n) (v : Value) : placeOf n default v ≤ n := by
  by_cases hv : v = .undefined
  · rw [hv]
    exact h
  · rw [placeOf_of_ne_undefined hv]
    exact Whole.position_le n _

theorem Number.Whole.ite_clamp_eq (length : Nat) (w : Whole) :
    (if w.clamp (-length) length < 0 then (length + w.clamp (-length) length).toNat
      else (w.clamp (-length) length).toNat) = w.position length := by
  generalize hk : w.clamp (-length) length = k
  rcases w with (_ | _) | n <;>
    simp only [clamp, position, if_true, Bool.false_eq_true, if_false] at hk ⊢ <;>
    split_ifs <;> omega

theorem resolvePosition_eq (length default : Nat) (v : Value) :
    resolvePosition length default v = placeOf length default v := by
  cases v with
  | undefined => rfl
  | _ =>
    rw [resolvePosition, placeOf]
    · simp only [Number.clampTrunc_eq, Whole.ite_clamp_eq]
    all_goals exact Value.noConfusion

/-! ## Slices -/

def IsPart (xs : List α) (start stop : Nat) (part : List α) : Prop :=
  ∃ before behind, xs = before ++ (part ++ behind) ∧ before.length = start ∧
    (before ++ part).length = stop

def sliceStart (length : Nat) (a : Value) : Nat := placeOf length 0 a

def sliceStop (length : Nat) (a b : Value) : Nat :=
  max (sliceStart length a) (placeOf length length b)

/-- Is it what stands in a sequence between the positions of two arguments? -/
structure IsSlice (xs : List α) (a b : Value) (part : List α) : Prop where
  start_le : sliceStart xs.length a ≤ sliceStop xs.length a b
  stop_le : sliceStop xs.length a b ≤ xs.length
  isPart : IsPart xs (sliceStart xs.length a) (sliceStop xs.length a b) part

private theorem isPart_take_drop {start stop : Nat} (hle : start ≤ stop)
    (hstop : stop ≤ xs.length) :
    IsPart xs start stop ((xs.drop start).take (stop - start)) := by
  refine ⟨xs.take start, (xs.drop start).drop (stop - start), ?_, ?_, ?_⟩
  · rw [List.take_append_drop, List.take_append_drop]
  · rw [List.length_take]
    omega
  · rw [List.length_append, List.length_take, List.length_take, List.length_drop]
    omega

theorem sliceBetween_eq (xs : List α) (a b : Value) :
    sliceBetween xs a b =
      (xs.drop (placeOf xs.length 0 a)).take
        (placeOf xs.length xs.length b - placeOf xs.length 0 a) := by
  rw [sliceBetween, resolvePosition_eq, resolvePosition_eq]

theorem isSlice_sliceBetween (xs : List α) (a b : Value) :
    IsSlice xs a b (sliceBetween xs a b) := by
  have hstart : placeOf xs.length 0 a ≤ xs.length := placeOf_le (Nat.zero_le _) a
  have hstop : placeOf xs.length xs.length b ≤ xs.length := placeOf_le le_rfl b
  have hlength : sliceStop xs.length a b - sliceStart xs.length a =
      placeOf xs.length xs.length b - placeOf xs.length 0 a := by
    rw [sliceStop, sliceStart]
    omega
  have hle : sliceStart xs.length a ≤ sliceStop xs.length a b := le_max_left _ _
  have hstop_le : sliceStop xs.length a b ≤ xs.length := max_le hstart hstop
  refine ⟨hle, hstop_le, ?_⟩
  rw [sliceBetween_eq, ← hlength]
  exact isPart_take_drop hle hstop_le

/-- **A sequence is what stands up to a position and what stands from there on.** -/
theorem sliceBetween_append (xs : List α) (hv : v ≠ .undefined) :
    sliceBetween xs (.number 0) v ++ sliceBetween xs v .undefined = xs := by
  have hzero : placeOf xs.length 0 (.number 0) = 0 := by
    have h0 : whole 0 = .finite (0 : Nat) := (Number.standsFor_ofNat (Nat.zero_le _)).whole_eq
    rw [placeOf_of_ne_undefined (by exact Value.noConfusion)]
    show (whole 0).position xs.length = 0
    rw [h0, Whole.position_natCast, Nat.zero_min]
  rw [sliceBetween_eq, sliceBetween_eq, hzero, placeOf_of_ne_undefined hv,
    placeOf_of_ne_undefined hv, List.drop_zero, Nat.sub_zero]
  show xs.take _ ++ (xs.drop _).take (xs.length - _) = xs
  rw [← List.length_drop, List.take_length, List.take_append_drop]

/-! ## Calls -/

namespace Value

def IsSequence (x : Value) : Prop := (∃ s, x = string s) ∨ ∃ items, x = array items

theorem callMethod_slice_string (s : String) (arguments : List Value) :
    (string s).callMethod .slice arguments = .ok (string (String.ofList
      (sliceBetween s.toList (argument arguments 0) (argument arguments 1)))) :=
  callMethod_string rfl Method.noConfusion arguments

private theorem callMethod_slice_array (items arguments : List Value) :
    (array items).callMethod .slice arguments =
      .ok (array (sliceBetween items (argument arguments 0) (argument arguments 1))) :=
  callMethod_array (m := .slice) rfl arguments

private theorem callMethod_concat_string (s t : String) :
    (string s).callMethod .concat [string t] = .ok (string (s ++ t)) :=
  callMethod_string rfl Method.noConfusion [string t]

private theorem callMethod_concat_array (items more : List Value) :
    (array items).callMethod .concat [array more] = .ok (array (items ++ more)) := by
  rw [callMethod_array rfl]
  show Except.ok (array (items ++ (more ++ []))) = _
  rw [List.append_nil]

/-- **A slice is the part of the sequence between the positions of its arguments**, and the slices
up to a position and from there on make up the sequence. -/
theorem callMethod_slice :
    (∀ (s : String) (arguments : List Value), ∃ t,
      (string s).callMethod .slice arguments = .ok (string t) ∧
        IsSlice s.toList (argument arguments 0) (argument arguments 1) t.toList) ∧
    (∀ items arguments : List Value, ∃ part,
      (array items).callMethod .slice arguments = .ok (array part) ∧
        IsSlice items (argument arguments 0) (argument arguments 1) part) ∧
    ∀ x v : Value, x.IsSequence → v ≠ undefined → ∃ front back,
      x.callMethod .slice [number 0, v] = .ok front ∧ x.callMethod .slice [v] = .ok back ∧
        front.callMethod .concat [back] = .ok x := by
  refine ⟨fun s arguments ↦ ⟨_, callMethod_slice_string s arguments, ?_⟩,
    fun items arguments ↦ ⟨_, callMethod_slice_array items arguments, isSlice_sliceBetween _ _ _⟩,
      ?_⟩
  · rw [String.toList_ofList]
    exact isSlice_sliceBetween _ _ _
  · rintro x v (⟨s, rfl⟩ | ⟨items, rfl⟩) hv
    · refine ⟨_, _, callMethod_slice_string s [number 0, v], callMethod_slice_string s [v], ?_⟩
      rw [callMethod_concat_string, ← String.ofList_append]
      show Except.ok (string (String.ofList (sliceBetween s.toList (number 0) v ++
        sliceBetween s.toList v undefined))) = _
      rw [sliceBetween_append _ hv, String.ofList_toList]
    · refine ⟨_, _, callMethod_slice_array items [number 0, v], callMethod_slice_array items [v],
        ?_⟩
      rw [callMethod_concat_array]
      exact congrArg (fun xs ↦ Except.ok (array xs)) (sliceBetween_append items hv)

/-- A text is cut two characters before its end. -/
theorem callMethod_slice_from_end : (string "añb").IsSequence ∧ number (-2) ≠ undefined ∧
    ∃ front back, (string "añb").callMethod .slice [number 0, number (-2)] = .ok front ∧
      (string "añb").callMethod .slice [number (-2)] = .ok back ∧
        front.callMethod .concat [back] = .ok (string "añb") := by
  have hx : (string "añb").IsSequence := .inl ⟨_, rfl⟩
  have hv : number (-2) ≠ undefined := Value.noConfusion
  exact ⟨hx, hv, callMethod_slice.2.2 _ _ hx hv⟩

end Value

end HtmlTemplate

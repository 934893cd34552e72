import HtmlTemplate.Number.Radix
import HtmlTemplate.Number.Reading
import HtmlTemplate.Proofs.Text.ByteClasses

/-!
# Checked access

Some operations give no result for some arguments: an item is read behind the end of a sequence, a
slice is out of range or not in order, or it begins or ends inside a character, a count is below
zero, a base has no digits, or a buffer is too small. Here each of them is a function into
`Checked`, in which the arguments without a result are faults. A program that is written with these
functions meets no fault on an input exactly if all the arguments on its way are good ones.

Offsets into a text are counted in bytes. What is not known to be a natural number, because a
difference gives it or because it is read from a value, is an integer here, so that it can be below
zero.

## The faults

There is one fault for each cause (`AccessFault`), and it carries nothing but its cause: what is
proved about a program is that it never comes to one, so where it would have come to it does not
matter. An operation whose arguments are good is `.ok` of the plain operation, and each equation
below says for which arguments that is. They are what a proof about a program rewrites with, one
access after another.
-/

namespace HtmlTemplate

open Number (digitChar digitValue isDigitOf ofDigits)

/-- Why an access breaks off. -/
inductive AccessFault where
  /-- An item is read behind the end. -/
  | index
  /-- A slice is out of range or not in order, or it begins or ends inside a character. -/
  | slice
  /-- A count is below zero. -/
  | count
  /-- A base is not between 2 and 36. -/
  | radix
  /-- A buffer is too small for a character. -/
  | buffer

/-- A result, or the reason why there is none. -/
abbrev Checked (α : Type) := Except AccessFault α

variable {α β : Type} {xs : List α} {a : α} {s t : List Char} {i n start stop : Nat} {c : Char}

namespace Checked

/-! ## Sequences

A part is taken between two positions, of which the first must not be behind the second and the
second not behind the end. What stands behind a position is the part from there to the end, so a
reader that drops what it has read is as good as one that keeps an index. -/

/-- The item at a position. -/
def item (xs : List α) (i : Nat) : Checked α :=
  match xs[i]? with
  | some a => pure a
  | none => throw .index

/-- The items between two positions. -/
def part (start stop : Nat) (xs : List α) : Checked (List α) :=
  if start ≤ stop ∧ stop ≤ xs.length then pure ((xs.drop start).take (stop - start))
  else throw .slice

def repeated (n : Int) (a : α) : Checked (List α) :=
  if 0 ≤ n then pure (List.replicate n.toNat a) else throw .count

def buffered (size : Nat) (form : List α) : Checked (List α) :=
  if form.length ≤ size then pure form else throw .buffer

theorem item_eq (h : xs[i]? = some a) : item xs i = pure a := by rw [item, h]

theorem part_eq (h : start ≤ stop) (h' : stop ≤ xs.length) :
    part start stop xs = pure ((xs.drop start).take (stop - start)) := if_pos ⟨h, h'⟩

theorem part_append {xs ys zs : List α} (hstart : start = xs.length)
    (hstop : stop = xs.length + ys.length) : part start stop (xs ++ (ys ++ zs)) = pure ys := by
  subst hstart hstop
  rw [part_eq (Nat.le_add_right _ _) (by simp), List.drop_left, Nat.add_sub_cancel_left,
    List.take_left]

theorem lt_length_of_drop {ys : List α} (h : xs.drop i = a :: ys) : i < xs.length := by
  by_contra hi
  rw [List.drop_eq_nil_of_le (Nat.not_lt.mp hi)] at h
  cases h

theorem getElem?_of_drop {ys : List α} (h : xs.drop i = a :: ys) : xs[i]? = some a := by
  rw [← Nat.add_zero i, ← List.getElem?_drop, h]
  rfl

theorem drop_succ_of_drop {ys : List α} (h : xs.drop i = a :: ys) : xs.drop (i + 1) = ys := by
  rw [← List.drop_drop, h]
  rfl

/-- What stands behind a position is a part. -/
theorem part_of_drop (as : List α) {bs cs : List α} (h : xs.drop i = a :: as ++ (bs ++ cs))
    (hstart : start = i + as.length + 1) (hstop : stop = start + bs.length) :
    part start stop xs = pure bs := by
  have hi := lt_length_of_drop h
  rw [← List.take_append_drop i xs, h, ← List.append_assoc]
  refine part_append ?_ ?_ <;>
    rw [List.length_append, List.length_take, List.length_cons] <;> omega

theorem repeated_eq {n : Int} (h : 0 ≤ n) (a : α) :
    repeated n a = pure (List.replicate n.toNat a) := if_pos h

theorem buffered_eq {size : Nat} (h : xs.length ≤ size) : buffered size xs = pure xs := if_pos h

theorem mapM_eq {f : α → Checked β} {g : α → β} (h : ∀ a, f a = pure (g a)) (xs : List α) :
    xs.mapM f = pure (xs.map g) := by
  rw [funext h]
  exact List.mapM_pure

/-! ## Texts

Offsets are in bytes, and an offset inside a character is a fault as much as one behind the end. -/

def textFrom (n : Nat) (s : List Char) : Checked (List Char) :=
  match Text.dropBytes n s with
  | some t => pure t
  | none => throw .slice

def textTo (n : Nat) (s : List Char) : Checked (List Char) :=
  match Text.takeBytes n s with
  | some t => pure t
  | none => throw .slice

/-- A text cut in two at a byte offset. -/
def splitAt (n : Int) (s : List Char) : Checked (List Char × List Char) :=
  if 0 ≤ n then do return (← textTo n.toNat s, ← textFrom n.toNat s)
  else throw .slice

theorem textFrom_eq (h : Text.dropBytes n s = some t) : textFrom n s = pure t := by rw [textFrom, h]

theorem textTo_eq (h : Text.takeBytes n s = some t) : textTo n s = pure t := by rw [textTo, h]

/-- Where every character is one byte, a text is cut anywhere. -/
theorem splitAt_eq (h : ∀ c ∈ s, c.toNat < 128) {n : Int} (hn : 0 ≤ n) (hle : n ≤ s.length) :
    splitAt n s = pure (s.take n.toNat, s.drop n.toNat) := by
  have hwidth : Text.width (s.take n.toNat) = n.toNat := by
    rw [Text.width_of_ascii fun c hc ↦ h c (List.mem_of_mem_take hc), List.length_take]
    omega
  have hto := Text.takeBytes_append (s.take n.toNat) (s.drop n.toNat)
  have hfrom := Text.dropBytes_append (s.take n.toNat) (s.drop n.toNat)
  rw [hwidth, List.take_append_drop] at hto hfrom
  rw [splitAt, if_pos hn, textTo_eq hto, textFrom_eq hfrom]
  rfl

/-! ## Digits

A base has digits from 2 to 36. A numeral may follow a plus, which the readers of escapes have to
look for themselves. -/

def radix (base : Int) : Checked Nat :=
  if 2 ≤ base ∧ base ≤ 36 then pure base.toNat else throw .radix

/-- The value of a character as a digit of a base, if it is one. -/
def digitIn? (base : Int) (c : Char) : Checked (Option Nat) := do
  let base ← radix base
  return if isDigitOf base c then some (digitValue c) else none

/-- The digit of a base that has a value, if there is one. -/
def digitFor? (base : Int) (n : Nat) : Checked (Option Char) := do
  let base ← radix base
  return if n < base then some (digitChar n) else none

/-- The number below a bound that the digits of a base write, which may follow one plus. -/
def numeral? (base bound : Nat) (s : List Char) : Option Nat :=
  let digits := Number.dropPlus s
  if digits.isEmpty || !digits.all (isDigitOf base) then none
  else
    let n := ofDigits base digits
    if n < bound then some n else none

/-- Reads a number below a bound in a base. -/
def natIn? (base : Int) (bound : Nat) (s : List Char) : Checked (Option Nat) := do
  return numeral? (← radix base) bound s

theorem radix_eq {base : Int} (two_le : 2 ≤ base) (le : base ≤ 36) :
    radix base = pure base.toNat := if_pos ⟨two_le, le⟩

theorem natIn?_sixteen (bound : Nat) (s : List Char) :
    natIn? 16 bound s = pure (numeral? 16 bound s) := by
  rw [natIn?, radix_eq (by decide) (by decide), pure_bind]
  rfl

theorem digitFor?_eq {base : Int} (two_le : 2 ≤ base) (le : base ≤ 36) (h : n < base.toNat) :
    digitFor? base n = pure (some (digitChar n)) := by
  rw [digitFor?, radix_eq two_le le, pure_bind, if_pos h]

theorem two_le_of_digitFor? {base : Int} {digit : Option Char} (h : digitFor? base n = .ok digit) :
    2 ≤ base := by
  by_contra hbase
  rw [digitFor?, radix, if_neg fun hb ↦ hbase hb.1] at h
  cases h

end Checked

end HtmlTemplate

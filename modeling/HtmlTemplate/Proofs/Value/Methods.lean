import HtmlTemplate.Value.Call
import HtmlTemplate.Value.Property
import Mathlib.Tactic.Common

/-!
# Calling methods

`v.callMethod m arguments` is the value of the call `v.m(arguments)`: the property of the method's
name is read from the value, and what is read is called. On strings and arrays no length and no item
has the name of a method, so what is read is the method (`callMethod_string`, `callMethod_array`).

## Names of methods

The name of a method begins with a letter, so it is no index, and it is not the key of the length.
An object can have a member of that name, which would be read in its place. This is why the claims
about methods are about strings and arrays.
-/

namespace HtmlTemplate

variable {m : Method} {v : Value} {s key : String} {items : List Value}

/-- The value of a call of the method's name on a value. -/
def Value.callMethod (v : Value) (m : Method) (arguments : List Value) :
    Except EvalError Value := do
  match ← v.getProperty m.name with
  | .function f => f.call arguments
  | _ => .error (.notAFunction m.name)

/-! ## Names -/

theorem Method.isLower_head_name (m : Method) : m.name.toList.head?.any Char.isLower = true := by
  cases m <;> decide

theorem Method.name_ne_length (m : Method) : m.name ≠ "length" := by cases m <;> decide

theorem arrayIndex?_name (m : Method) : arrayIndex? m.name = none := by cases m <;> decide

theorem Method.lookup_name (h : m.isOf v = true) : Method.lookup v m.name = some m := by
  rw [Method.lookup, Method.ofName?_name, Option.filter_some, if_pos h]

theorem Value.boundMethod_name (h : m.isOf v = true) :
    v.boundMethod m.name = .function (.method v m) := by
  rw [Value.boundMethod, Method.lookup_name h]

theorem Value.boundMethod_of_head (v : Value) (h : key.toList.head?.any Char.isLower = false) :
    v.boundMethod key = .undefined := by
  have hname : Method.ofName? key = none := by
    refine List.find?_eq_none.mpr fun m _ hm ↦ ?_
    rw [← beq_iff_eq.mp hm, m.isLower_head_name] at h
    cases h
  rw [Value.boundMethod, Method.lookup, hname]
  rfl

/-! ## Calls -/

theorem Callable.call_method (h : ∀ s, v = .string s → m ≠ .replace) (arguments : List Value) :
    (Callable.method v m).call arguments = m.callPlain v arguments := by
  rw [Callable.call]
  exact h

namespace Value

/-- **What is called on a string is the method**, unless that replaces by a function. -/
theorem callMethod_string (h : m.isOf (.string s) = true) (hm : m ≠ .replace)
    (arguments : List Value) :
    (string s).callMethod m arguments = .ok (m.ofString s arguments) := by
  rw [callMethod, getProperty, if_neg m.name_ne_length, arrayIndex?_name, boundMethod_name h]
  exact Callable.call_method (fun _ _ ↦ hm) arguments

/-- **What is called on an array is the method.** -/
theorem callMethod_array (h : m.isOf (.array items) = true) (arguments : List Value) :
    (array items).callMethod m arguments = .ok (m.ofArray items arguments) := by
  rw [callMethod, getProperty, if_neg m.name_ne_length, arrayIndex?_name, boundMethod_name h]
  exact Callable.call_method (fun _ h ↦ Value.noConfusion h) arguments

end Value

end HtmlTemplate

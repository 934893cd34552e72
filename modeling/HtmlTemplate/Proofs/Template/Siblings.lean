import HtmlTemplate.Template.Compile

/-!
# Siblings

The nodes of a list are compiled one after another, and each sees nothing of the others. So lists
that stand behind one another are compiled as each of them on its own, and a list as its nodes on
their own, whatever number of nodes each of them is compiled to.

That a program which splices the outcomes into the list, and goes on by what a directive reports to
occupy, comes to the same is no matter of one list: a directive can compile a clone of its element
many times before the next sibling is visited. This is in `HtmlTemplate.Proofs.Template.InPlace`.
-/

namespace HtmlTemplate

variable {options : Options} {data : Data}

/-! ## Compiling one list behind another -/

theorem compileNodes_nil : compileNodes options data [] = .ok [] := by rw [compileNodes]

theorem compileNodes_cons (n : Node) (ns : List Node) :
    compileNodes options data (n :: ns) =
      (compileNode options data n).bind fun front ↦
        (compileNodes options data ns).map (front ++ ·) := by
  rw [compileNodes]
  rcases compileNode options data n with err | front
  · rfl
  · rcases compileNodes options data ns with err | behind <;> rfl

theorem compileNodes_singleton (n : Node) :
    compileNodes options data [n] = compileNode options data n := by
  rw [compileNodes_cons, compileNodes_nil]
  rcases compileNode options data n with err | ns
  · rfl
  · exact congrArg Except.ok (List.append_nil ns)

theorem compileNodes_append (a b : List Node) :
    compileNodes options data (a ++ b) =
      (compileNodes options data a).bind fun x ↦
        (compileNodes options data b).map (x ++ ·) := by
  induction a with
  | nil =>
    rw [List.nil_append, compileNodes_nil]
    rcases compileNodes options data b with err | y <;> rfl
  | cons n a ih =>
    rw [List.cons_append, compileNodes_cons, compileNodes_cons, ih]
    rcases compileNode options data n with err | front
    · rfl
    · rcases compileNodes options data a with err | x
      · rfl
      · rcases compileNodes options data b with err | y
        · rfl
        · exact congrArg Except.ok (List.append_assoc front x y).symm

/-- The outcomes of the nodes, each on its own, one after another. -/
theorem compileNodes_eq_mapM (ns : List Node) :
    compileNodes options data ns = (ns.mapM (compileNode options data)).map List.flatten := by
  induction ns with
  | nil => exact compileNodes_nil
  | cons n ns ih =>
    rw [compileNodes_cons, ih, List.mapM_cons]
    rcases compileNode options data n with err | front
    · rfl
    · rcases ns.mapM (compileNode options data) with err | behind <;> rfl

end HtmlTemplate

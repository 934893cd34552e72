import HtmlTemplate.Proofs.Interpolation.Sums
import HtmlTemplate.Template.Compile

/-!
# Expressions with a known value

A directive on a name has the value of the name, and a text without a span is compiled to itself.

## What is used of it

These are the smallest expressions with a value on data: a name, and a literal. A claim about
templates that evaluate nothing else, and every template that is compiled here as an example, uses
no more of the evaluator.
-/

namespace HtmlTemplate

open Interpolation (isInterpolated expressionOf)

variable {d : Directive} {data : Data}

private theorem evaluate_of_hasValue {l : Expr.Level} {s : List Char} {v : Value}
    (h : Expr.HasValue data l s v) : evaluate d data (String.ofList s) = .ok v := by
  obtain ⟨evaluator, hof, hcall⟩ := h.call
  simp only [evaluate, hof, hcall]

theorem evaluate_name {c : Char} {t : List Char} {name : String} (d : Directive) (data : Data)
    (hc : Text.isBlank c = false) (hscan : Expr.scanToken c t = .ok (.name name, []))
    (hname : name = String.ofList (c :: t))
    (h : ∀ span, Expr.ofName name span = some (.name name span)) :
    evaluate d data name = .ok (Expr.denoted data name) := by
  have hsource : Expr.IsSource (.level .or) (c :: t) (.name name ⟨0, Text.width (c :: t)⟩) :=
    Expr.isSource_name hc hscan (h _)
  have hfree : name ∈ (Expr.occurrences (.name name ⟨0, Text.width (c :: t)⟩)).map (·.1) := by
    rw [Expr.occurrences]
    exact List.mem_singleton_self name
  have hof := hsource.conditional.ofSource
  rw [← hname] at hof
  simp only [evaluate, hof, Evaluator.call, Expr.eval, Expr.resolve_scope data hfree]

theorem evaluate_expressionOf {s : String} (h : isInterpolated s = false) :
    evaluate d data (expressionOf s) = .ok (.string s) := by
  have hspan : ¬Interpolation.hasSpan s.toList = true := by
    rw [Bool.not_eq_true]
    exact h
  rw [expressionOf, Interpolation.toExpression, if_neg hspan,
    evaluate_of_hasValue (Interpolation.hasValue_quote data s.toList), String.ofList_toList]

theorem compileText_of_not_isInterpolated {s : String} (h : isInterpolated s = false) :
    compileText data s = .ok s := by
  rw [compileText]
  split
  · rfl
  · rw [evaluate_expressionOf h]
    rfl

/-! ## An element with nothing but a text directive -/

section Text

variable {tag value : String} {cs : List Node} (hvalue : Text.trimmed value = value)
  (hne : value.isEmpty = false)

include hvalue hne

theorem bindElement_text_eq :
    bindElement {} data ⟨tag, [⟨":text", value⟩], cs⟩ = (evaluate .text data value).map fun v ↦
      .stays ⟨tag, [], Node.textChildren (textOf v)⟩ false := by
  have hnone : ({} : Options).priorityOn? ⟨tag, [⟨":text", value⟩], cs⟩ = none := rfl
  have hname : Directive.ofName? "text" = some .text := by decide
  have hmarked (e : Element) : bindMarked data "text" value e =
      (evaluate .text data value).map fun v ↦
        .stays { e with children := Node.textChildren (textOf v) } false := by
    rw [bindMarked_of_some e hname, if_neg (by decide)]
    rcases evaluate .text data value with err | v <;> rfl
  rw [bindElement, hnone]
  simp only [bindAttributes, show ({} : Options).directiveOf? ":text" = some "text" by decide,
    hvalue, hne, hmarked]
  rcases evaluate .text data value with err | v <;> rfl

theorem bindElement_text {v : Value} (h : evaluate .text data value = .ok v) :
    bindElement {} data ⟨tag, [⟨":text", value⟩], cs⟩ =
      .ok (.stays ⟨tag, [], Node.textChildren (textOf v)⟩ false) := by
  rw [bindElement_text_eq hvalue hne, h]
  rfl

end Text

end HtmlTemplate

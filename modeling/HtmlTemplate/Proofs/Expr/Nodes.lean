import HtmlTemplate.Expr.FreeNames
import HtmlTemplate.Proofs.Expr.Grammar

/-!
# The nodes of an expression

All expressions in an expression, in the order of a walk over the tree that visits each one before
what is in it. The names that occur in an expression are the names among its nodes, in this order.

## One walk

The order is the one in which the parts are written. It is the order of the names as well, because a
name is a node without parts and an object member without a value is a node for its own name.
-/

namespace HtmlTemplate.Expr

mutual

/-- The expression, and behind it the nodes of what is in it. -/
def nodes : Expr → List Expr
  | literal value => [literal value]
  | name text span => [name text span]
  | array items => array items :: nodesAll items
  | object members => object members :: nodesMembers members
  | member target property => member target property :: nodes target
  | index target key => index target key :: (nodes target ++ nodes key)
  | call callee arguments span =>
    call callee arguments span :: (nodes callee ++ nodesAll arguments)
  | unary op operand => unary op operand :: nodes operand
  | binary op left right => binary op left right :: (nodes left ++ nodes right)
  | logical op left right => logical op left right :: (nodes left ++ nodes right)
  | conditional test consequent alternate =>
    conditional test consequent alternate :: (nodes test ++ nodes consequent ++ nodes alternate)

def nodesAll : List Expr → List Expr
  | [] => []
  | e :: es => nodes e ++ nodesAll es

/-- The nodes of the members of an object. A name that stands for key and value is a node itself. -/
def nodesMembers : List ObjectMember → List Expr
  | [] => []
  | .pair _ value :: ms => nodes value ++ nodesMembers ms
  | .shorthand text span :: ms => name text span :: nodesMembers ms

end

def occurrence? : Expr → Option (String × Span)
  | name text span => some (text, span)
  | _ => none

mutual

/-- **The names among the nodes** are the names that occur. -/
theorem filterMap_nodes : ∀ e : Expr, e.nodes.filterMap occurrence? = occurrences e
  | literal _ => by
    rw [nodes, occurrences]
    rfl
  | name _ _ => by
    rw [nodes, occurrences]
    rfl
  | array items => by
    rw [nodes, occurrences, List.filterMap_cons, ← filterMap_nodesAll items]
    rfl
  | object members => by
    rw [nodes, occurrences, List.filterMap_cons, ← filterMap_nodesMembers members]
    rfl
  | member target _ => by
    rw [nodes, occurrences, List.filterMap_cons, ← filterMap_nodes target]
    rfl
  | index target key => by
    rw [nodes, occurrences, List.filterMap_cons, List.filterMap_append, ← filterMap_nodes target,
      ← filterMap_nodes key]
    rfl
  | call callee arguments _ => by
    rw [nodes, occurrences, List.filterMap_cons, List.filterMap_append, ← filterMap_nodes callee,
      ← filterMap_nodesAll arguments]
    rfl
  | unary _ operand => by
    rw [nodes, occurrences, List.filterMap_cons, ← filterMap_nodes operand]
    rfl
  | binary _ left right => by
    rw [nodes, occurrences, List.filterMap_cons, List.filterMap_append, ← filterMap_nodes left,
      ← filterMap_nodes right]
    rfl
  | logical _ left right => by
    rw [nodes, occurrences, List.filterMap_cons, List.filterMap_append, ← filterMap_nodes left,
      ← filterMap_nodes right]
    rfl
  | conditional test consequent alternate => by
    rw [nodes, occurrences, List.filterMap_cons, List.filterMap_append, List.filterMap_append,
      ← filterMap_nodes test, ← filterMap_nodes consequent, ← filterMap_nodes alternate]
    rfl

theorem filterMap_nodesAll : ∀ es : List Expr,
    (nodesAll es).filterMap occurrence? = occurrencesAll es
  | [] => by
    rw [nodesAll, occurrencesAll]
    rfl
  | e :: es => by
    rw [nodesAll, occurrencesAll, List.filterMap_append, filterMap_nodes e, filterMap_nodesAll es]

theorem filterMap_nodesMembers : ∀ ms : List ObjectMember,
    (nodesMembers ms).filterMap occurrence? = occurrencesMembers ms
  | [] => by
    rw [nodesMembers, occurrencesMembers]
    rfl
  | .pair _ value :: ms => by
    rw [nodesMembers, occurrencesMembers, List.filterMap_append, filterMap_nodes value,
      filterMap_nodesMembers ms]
  | .shorthand _ _ :: ms => by
    rw [nodesMembers, occurrencesMembers, List.filterMap_cons, filterMap_nodesMembers ms]
    rfl

end

/-! ## Phrases

A phrase that stands for a list of items or of members has the nodes of all of them. -/

/-- The nodes of what a phrase stands for. -/
def Phrase.nodes : Phrase → List Expr
  | expr e => e.nodes
  | items es => nodesAll es
  | members ms => nodesMembers ms
  | member m => nodesMembers [m]

theorem nodesMembers_cons (m : ObjectMember) (ms : List ObjectMember) :
    nodesMembers (m :: ms) = nodesMembers [m] ++ nodesMembers ms := by
  cases m with
  | pair key value => rw [nodesMembers, nodesMembers, nodesMembers, List.append_nil]
  | shorthand text span =>
    rw [nodesMembers, nodesMembers, nodesMembers]
    rfl

theorem nodes_apply (op : Operator) (a b : Expr) :
    (op.apply a b).nodes = op.apply a b :: (a.nodes ++ b.nodes) := by
  cases op <;> rw [Operator.apply.eq_def] <;> exact nodes.eq_def _

end HtmlTemplate.Expr

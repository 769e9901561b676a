import Mathlib

/-!
# Logical plans and the rewriter of the optimizer

Expressions as they stand in a logical plan, their evaluation on a tuple, the
plans built for `SELECT`, `DELETE` and `UPDATE`, and one pass of `Rewriter`:
`ExpressionRewriter`, `PredicateRewriteRule` and `PredicatePushdownRewriter` at
a node, then the same at its children. `ProjectionPruningRule` only chooses the
columns that a scan copies and is left out. What the rules use of a `Value` is
a parameter; an evaluation that fails has no value.
-/

namespace CsuDbms.LogicalPlanModel

open List Option

inductive CompOp where
  | equalTo
  | lessEqual
  | notEqual
  | lessThan
  | greatEqual
  | greatThan
  | isNull
  | isNotNull
  deriving DecidableEq, Repr

inductive ArithmeticType where
  | add
  | sub
  | mul
  | div
  deriving DecidableEq, Repr

inductive ConjunctionType where
  | and
  | or
  deriving DecidableEq, Repr

/-- `Expression` after binding. A `FieldExpr` and an `AggregateExpr` read a cell
of the tuple; `negative` is the `ArithmeticExpr` without a right operand. -/
inductive Expr (Value Field AttrType : Type) where
  | field (name : Field)
  | value (constant : Value)
  | cast (type : AttrType) (child : Expr Value Field AttrType)
  | comparison (comp : CompOp) (left right : Expr Value Field AttrType)
  | arithmetic (type : ArithmeticType) (left right : Expr Value Field AttrType)
  | negative (child : Expr Value Field AttrType)
  | conjunction (type : ConjunctionType) (children : List (Expr Value Field AttrType))

structure ValueOps (Value Field AttrType Tuple : Type) where
  getBoolean : Value → Bool
  isBoolean : Value → Bool
  setBoolean : Bool → Value
  get_set_boolean : ∀ flag, getBoolean (setBoolean flag) = flag
  compareValue : CompOp → Value → Value → Option Bool
  calcValue : ArithmeticType → Value → Value → Option Value
  calcNegative : Value → Option Value
  castTo : AttrType → Value → Option Value
  findCell : Tuple → Field → Option Value

variable {Value Field AttrType Tuple Table : Type} (ops : ValueOps Value Field AttrType Tuple)

mutual

def getValue (tuple : Tuple) : Expr Value Field AttrType → Option Value
  | .field name => ops.findCell tuple name
  | .value constant => some constant
  | .cast type child => (getValue tuple child).bind (ops.castTo type)
  | .comparison comp left right => do
      let leftValue ← getValue tuple left
      let rightValue ← getValue tuple right
      (ops.compareValue comp leftValue rightValue).map ops.setBoolean
  | .arithmetic type left right => do
      let leftValue ← getValue tuple left
      let rightValue ← getValue tuple right
      ops.calcValue type leftValue rightValue
  | .negative child => (getValue tuple child).bind ops.calcNegative
  | .conjunction type children =>
    if children.isEmpty then some (ops.setBoolean true)
    else (conjunctionValue tuple type children).map ops.setBoolean

/-- The loop of `ConjunctionExpr::get_value`, which stops at the first child that
decides the result. -/
def conjunctionValue (tuple : Tuple) (type : ConjunctionType) :
    List (Expr Value Field AttrType) → Option Bool
  | [] => some (type = .and)
  | child :: rest => do
      let childValue ← getValue tuple child
      match type, ops.getBoolean childValue with
      | .and, false => some false
      | .or, true => some true
      | _, _ => conjunctionValue tuple type rest

end

/-- The row passes a filter made of the expression: it has a value and
`get_boolean` of it is true. -/
def passes (tuple : Tuple) (expr : Expr Value Field AttrType) : Bool :=
  match getValue ops tuple expr with
  | some result => ops.getBoolean result
  | none => false

structure Rewritten (Subject : Type) where
  result : Subject
  changeMade : Bool

/-- `ArithmeticSimplificationRule`: a constant that cannot be computed is an
error of the whole statement. -/
def arithmeticRule :
    Expr Value Field AttrType → Option (Rewritten (Expr Value Field AttrType))
  | .arithmetic type (.value left) (.value right) =>
    (ops.calcValue type left right).map fun result => ⟨.value result, true⟩
  | expr => some ⟨expr, false⟩

def comparisonRule : Expr Value Field AttrType → Rewritten (Expr Value Field AttrType)
  | .comparison comp (.value left) (.value right) =>
    match ops.compareValue comp left right with
    | some result => ⟨.value (ops.setBoolean result), true⟩
    | none => ⟨.comparison comp (.value left) (.value right), false⟩
  | expr => ⟨expr, false⟩

def boolConstant : Expr Value Field AttrType → Option Bool
  | .value constant => if ops.isBoolean constant then some (ops.getBoolean constant) else none
  | _ => none

/-- The loop of `ConjunctionSimplificationRule` from the iterator on, with `kept` before it: neutral
constants are erased, and `none` is the return at a constant that decides the conjunction. -/
def dropNeutral (type : ConjunctionType) (kept : List (Expr Value Field AttrType)) :
    List (Expr Value Field AttrType) →
      Option (Expr Value Field AttrType) × List (Expr Value Field AttrType)
  | [] => (none, kept)
  | child :: rest =>
    match boolConstant ops child with
    | none => dropNeutral type (kept ++ [child]) rest
    | some constant =>
      if constant = decide (type = .and) then dropNeutral type kept rest
      -- the first child stands for the conjunction, whichever child decided it
      else (some (kept.headD child), [])

def conjunctionRule : Expr Value Field AttrType → Rewritten (Expr Value Field AttrType)
  | .conjunction type children =>
    match dropNeutral ops type [] children with
    | (some first, _) => ⟨first, false⟩
    | (none, [child]) => ⟨child, true⟩
    | (none, kept) => ⟨.conjunction type kept, false⟩
  | expr => ⟨expr, false⟩

def applyRules (expr : Expr Value Field AttrType) :
    Option (Rewritten (Expr Value Field AttrType)) := do
  let arithmetic ← arithmeticRule ops expr
  let comparison := comparisonRule ops arithmetic.result
  let conjunction := conjunctionRule ops comparison.result
  some ⟨conjunction.result,
    arithmetic.changeMade || comparison.changeMade || conjunction.changeMade⟩

def rewriteEach {Subject : Type} (rewriteOne : Subject → Option (Rewritten Subject)) :
    List Subject → Option (Rewritten (List Subject))
  | [] => some ⟨[], false⟩
  | subject :: rest => do
      let first ← rewriteOne subject
      let others ← rewriteEach rewriteOne rest
      some ⟨first.result :: others.result, first.changeMade || others.changeMade⟩

mutual

def exprDepth : Expr Value Field AttrType → Nat
  | .field _ => 1
  | .value _ => 1
  | .cast _ child => exprDepth child + 1
  | .comparison _ left right => max (exprDepth left) (exprDepth right) + 1
  | .arithmetic _ left right => max (exprDepth left) (exprDepth right) + 1
  | .negative child => exprDepth child + 1
  | .conjunction _ children => exprsDepth children + 1

def exprsDepth : List (Expr Value Field AttrType) → Nat
  | [] => 0
  | child :: rest => max (exprDepth child) (exprsDepth rest)

end

/-- `ExpressionRewriter::rewrite_expression`. The calls never go deeper than the
expression is nested, so `fuel` is its depth. -/
def rewriteExpression : Nat → Expr Value Field AttrType →
    Option (Rewritten (Expr Value Field AttrType))
  | 0, expr => some ⟨expr, false⟩
  | fuel + 1, expr => do
      let ruled ← applyRules ops expr
      if ruled.changeMade then some ruled
      else
        match ruled.result with
        | .cast type child => do
            let inner ← rewriteExpression fuel child
            some ⟨.cast type inner.result, inner.changeMade⟩
        | .comparison comp left right => do
            let leftInner ← rewriteExpression fuel left
            let rightInner ← rewriteExpression fuel right
            some ⟨.comparison comp leftInner.result rightInner.result,
              leftInner.changeMade || rightInner.changeMade⟩
        | .conjunction type children => do
            let inner ← rewriteEach (rewriteExpression fuel) children
            some ⟨.conjunction type inner.result, inner.changeMade⟩
        | _ => some ruled

theorem drop_neutral_mem (type : ConjunctionType) (kept children : List (Expr Value Field AttrType))
    (child : Expr Value Field AttrType)
    (member : child ∈ (dropNeutral ops type kept children).1.toList ∨
      child ∈ (dropNeutral ops type kept children).2) : child ∈ kept ++ children := by
  fun_induction dropNeutral ops type kept children with
  | case1 => simpa using member
  | case2 kept first rest _ ih => simpa using ih member
  | case3 _ _ _ _ ih =>
    have remains := ih member
    simp only [mem_append, mem_cons] at remains ⊢
    tauto
  | case4 kept first =>
    cases kept with
    | nil => simp_all
    | cons front others => simp_all

inductive LogicalOperatorType where
  | projection
  | sort
  | groupBy
  | predicate
  | delete
  | update
  | explain
  deriving DecidableEq, Repr

/-- The operators of a `SELECT`, `DELETE` or `UPDATE`. All but the scan and the
join have one child, or none once `PredicateRewriteRule` has removed it. -/
inductive Plan (Value Field AttrType Table : Type) where
  | tableGet (table : Table) (predicates : List (Expr Value Field AttrType))
  | join (left right : Plan Value Field AttrType Table)
  | unary (type : LogicalOperatorType) (expressions : List (Expr Value Field AttrType))
      (child : Plan Value Field AttrType Table)
  | childless (type : LogicalOperatorType) (expressions : List (Expr Value Field AttrType))

/-- `ExpressionRewriter::rewrite` over a whole plan. The predicates of a scan are
not among its expressions. -/
def expressionRewriter : Plan Value Field AttrType Table →
    Option (Rewritten (Plan Value Field AttrType Table))
  | .tableGet table predicates => some ⟨.tableGet table predicates, false⟩
  | .join left right => do
      let leftInner ← expressionRewriter left
      let rightInner ← expressionRewriter right
      some ⟨.join leftInner.result rightInner.result,
        leftInner.changeMade || rightInner.changeMade⟩
  | .unary type expressions child => do
      let own ← rewriteEach (fun expr => rewriteExpression ops (exprDepth expr) expr) expressions
      let inner ← expressionRewriter child
      some ⟨.unary type own.result inner.result, own.changeMade || inner.changeMade⟩
  | .childless type expressions => do
      let own ← rewriteEach (fun expr => rewriteExpression ops (exprDepth expr) expr) expressions
      some ⟨.childless type own.result, own.changeMade⟩

/-- `PredicateRewriteRule::rewrite`: an only child that filters by a constant is
replaced by its own child, or removed. -/
def predicateRewrite : Plan Value Field AttrType Table →
    Rewritten (Plan Value Field AttrType Table)
  | .unary type expressions (.unary .predicate [.value constant] grandChild) =>
    if ops.getBoolean constant then ⟨.unary type expressions grandChild, true⟩
    else ⟨.childless type expressions, true⟩
  | .unary type expressions (.childless .predicate [.value _]) =>
    ⟨.childless type expressions, true⟩
  | plan => ⟨plan, false⟩

mutual

/-- `get_exprs_can_pushdown`: what stays of an expression, nothing if it was moved
out, and the expressions moved out of it. -/
def exprsCanPushdown : Expr Value Field AttrType →
    Option (Expr Value Field AttrType) × List (Expr Value Field AttrType)
  | .conjunction .and children =>
    (some (.conjunction .and (childrenCanPushdown children).1),
      (childrenCanPushdown children).2)
  | .comparison comp left right => (none, [.comparison comp left right])
  | expr => (some expr, [])

def childrenCanPushdown : List (Expr Value Field AttrType) →
    List (Expr Value Field AttrType) × List (Expr Value Field AttrType)
  | [] => ([], [])
  | child :: rest =>
    ((exprsCanPushdown child).1.toList ++ (childrenCanPushdown rest).1,
      (exprsCanPushdown child).2 ++ (childrenCanPushdown rest).2)

end

/-- What the predicate operator filters by afterwards: a true constant where
`is_empty_predicate` finds nothing left. -/
def remainingPredicate : Option (Expr Value Field AttrType) → Expr Value Field AttrType
  | none => .value (ops.setBoolean true)
  | some (.conjunction _ []) => .value (ops.setBoolean true)
  | some expr => expr

/-- `PredicatePushdownRewriter::rewrite`. `set_predicates` replaces what the scan
held before. -/
def predicatePushdown : Plan Value Field AttrType Table →
    Rewritten (Plan Value Field AttrType Table)
  | .unary .predicate [expr] (.tableGet table predicates) =>
    let (remaining, pushed) := exprsCanPushdown expr
    ⟨.unary .predicate [remainingPredicate ops remaining]
        (.tableGet table (if pushed.isEmpty then predicates else pushed)),
      !pushed.isEmpty⟩
  | plan => ⟨plan, false⟩

def planDepth : Plan Value Field AttrType Table → Nat
  | .tableGet _ _ => 1
  | .join left right => max (planDepth left) (planDepth right) + 1
  | .unary _ _ child => planDepth child + 1
  | .childless _ _ => 1

/-- `Rewriter::rewrite`: the rules at the node, then its children. No rule makes a
plan deeper, so `fuel` is the depth of the plan. -/
def rewriterRewrite : Nat → Plan Value Field AttrType Table →
    Option (Rewritten (Plan Value Field AttrType Table))
  | 0, plan => some ⟨plan, false⟩
  | fuel + 1, plan => do
      let simplified ← expressionRewriter ops plan
      let spliced := predicateRewrite ops simplified.result
      let pushed := predicatePushdown ops spliced.result
      let changed := simplified.changeMade || spliced.changeMade || pushed.changeMade
      match pushed.result with
      | .unary type expressions child => do
          let inner ← rewriterRewrite fuel child
          some ⟨.unary type expressions inner.result, changed || inner.changeMade⟩
      | .join left right => do
          let leftInner ← rewriterRewrite fuel left
          let rightInner ← rewriterRewrite fuel right
          some ⟨.join leftInner.result rightInner.result,
            changed || leftInner.changeMade || rightInner.changeMade⟩
      | leaf => some ⟨leaf, changed⟩

def rewritePass (plan : Plan Value Field AttrType Table) :
    Option (Rewritten (Plan Value Field AttrType Table)) :=
  rewriterRewrite ops (planDepth plan) plan

/-- The rows that reach the operators above the `FROM` and `WHERE` part, in the
order the operators hand them on. `scan` gives the rows of a table. -/
def selected (scan : Table → List Tuple) (joinTuples : Tuple → Tuple → Tuple) :
    Plan Value Field AttrType Table → List Tuple
  | .tableGet table predicates =>
    (scan table).filter fun tuple => predicates.all (passes ops tuple)
  | .join left right =>
    (selected scan joinTuples left).flatMap fun leftTuple =>
      (selected scan joinTuples right).map (joinTuples leftTuple)
  | .unary .predicate expressions child =>
    (selected scan joinTuples child).filter fun tuple => expressions.all (passes ops tuple)
  | .unary _ _ child => selected scan joinTuples child
  | .childless _ _ => []

end CsuDbms.LogicalPlanModel

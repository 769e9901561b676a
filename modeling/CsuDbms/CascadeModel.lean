import CsuDbms.TaskStack
import Mathlib

/-!
# The cascade optimizer

Logical operators are put into a memo of groups, tasks on a stack apply the implementation rules and
choose a winner for each group, and the physical plan is read off the winners.

`operator==` compares the type of an operator, the table of a scan and the children, never the
expressions; operators are modelled without these, so that it is equality. The patterns of the rules
have leaf children only, for which `OptimizeExpression` pushes no `ExploreGroup`. A cost is a number
below the greatest double, which stands for "none yet" and for the upper bound.
-/

namespace CsuDbms.CascadeModel

open TaskStack Function

inductive LeafOp where
  | tableGet (tableId : Nat)
  | calculate
  | insert
  deriving DecidableEq, Repr

inductive UnaryOp where
  | predicate
  | groupBy
  | sort
  | project
  | delete
  | update
  | explain
  deriving DecidableEq, Repr

/-- The logical operators of `LogicalPlanGenerator`, by their number of children. -/
inductive Plan where
  | leaf (op : LeafOp)
  | unary (op : UnaryOp) (child : Plan)
  | join (left right : Plan)
  deriving DecidableEq, Repr

def Plan.children : Plan → List Plan
  | .leaf _ => []
  | .unary _ child => [child]
  | .join left right => [left, right]

inductive PhysicalOp where
  | explain
  | calculate
  | seqScan (tableId : Nat)
  | innerNlJoin
  | innerHashJoin
  | projection
  | insert
  | delete
  | update
  | hashGroupBy
  | scalarGroupBy
  | filter
  | orderBy
  deriving DecidableEq, Repr

inductive OpType where
  | logicalGet
  | logicalCalculate
  | logicalGroupBy
  | logicalProjection
  | logicalFilter
  | logicalInnerJoin
  | logicalInsert
  | logicalDelete
  | logicalUpdate
  | logicalExplain
  | logicalSort
  | physical (op : PhysicalOp)
  deriving DecidableEq, Repr

def Plan.opType : Plan → OpType
  | .leaf (.tableGet _) => .logicalGet
  | .leaf .calculate => .logicalCalculate
  | .leaf .insert => .logicalInsert
  | .unary .predicate _ => .logicalFilter
  | .unary .groupBy _ => .logicalGroupBy
  | .unary .sort _ => .logicalSort
  | .unary .project _ => .logicalProjection
  | .unary .delete _ => .logicalDelete
  | .unary .update _ => .logicalUpdate
  | .unary .explain _ => .logicalExplain
  | .join _ _ => .logicalInnerJoin

/-- `OperatorNode`. The general children of a physical operator are the logical children of
the operator it implements. -/
inductive Node where
  | logical (plan : Plan)
  | physical (op : PhysicalOp) (children : List Plan)
  deriving DecidableEq, Repr

def Node.opType : Node → OpType
  | .logical plan => plan.opType
  | .physical op _ => .physical op

def Node.generalChildren : Node → List Plan
  | .logical plan => plan.children
  | .physical _ children => children

def Node.isPhysical : Node → Bool
  | .logical _ => false
  | .physical _ _ => true

inductive Rule where
  | projectionToPhysical
  | getToSeqScan
  | insertToPhysical
  | explainToPhysical
  | calcToPhysical
  | deleteToPhysical
  | predicateToPhysical
  deriving DecidableEq, Repr

/-- `RuleSetName::PHYSICAL_IMPLEMENTATION`, in the order in which `RuleSet` adds the rules. -/
def physicalImplementation : List Rule :=
  [.projectionToPhysical, .getToSeqScan, .insertToPhysical, .explainToPhysical,
    .calcToPhysical, .deleteToPhysical, .predicateToPhysical]

def Rule.matchPattern : Rule → OpType × Nat
  | .projectionToPhysical => (.logicalProjection, 1)
  | .getToSeqScan => (.logicalGet, 0)
  | .insertToPhysical => (.logicalInsert, 0)
  | .explainToPhysical => (.logicalExplain, 1)
  | .calcToPhysical => (.logicalCalculate, 0)
  | .deleteToPhysical => (.logicalDelete, 1)
  | .predicateToPhysical => (.logicalFilter, 1)

/-- `transform` casts its input to the operator of its pattern and is called for nothing else. -/
def Rule.transform : Rule → Node → List Node
  | .projectionToPhysical, .logical (.unary .project child) => [.physical .projection [child]]
  | .getToSeqScan, .logical (.leaf (.tableGet tableId)) => [.physical (.seqScan tableId) []]
  | .insertToPhysical, .logical (.leaf .insert) => [.physical .insert []]
  | .explainToPhysical, .logical (.unary .explain child) => [.physical .explain [child]]
  | .calcToPhysical, .logical (.leaf .calculate) => [.physical .calculate []]
  | .deleteToPhysical, .logical (.unary .delete child) => [.physical .delete [child]]
  | .predicateToPhysical, .logical (.unary .predicate child) => [.physical .filter [child]]
  | _, _ => []

structure GroupExpr where
  contents : Node
  childGroups : List Nat
  groupId : Nat
  ruleMask : Rule → Bool
  lowestCost : Option Int

structure Group where
  winner : Option (Int × Nat)
  logicalExpressions : List Nat
  physicalExpressions : List Nat
  hasExplored : Bool

/-- Expressions and groups are numbered in the order of their insertion. -/
structure Memo where
  exprCount : Nat
  exprs : Nat → GroupExpr
  groupCount : Nat
  groups : Nat → Group

def Group.empty : Group := ⟨none, [], [], false⟩

def Memo.empty : Memo :=
  { exprCount := 0, exprs := fun _ => ⟨.physical .explain [], [], 0, fun _ => false, none⟩,
    groupCount := 0, groups := fun _ => .empty }

@[simps -fullyApplied groups]
def Memo.setExpr (memo : Memo) (expr : Nat) (value : GroupExpr) : Memo :=
  { memo with exprs := update memo.exprs expr value }

@[simps -fullyApplied exprs]
def Memo.setGroup (memo : Memo) (group : Nat) (value : Group) : Memo :=
  { memo with groups := update memo.groups group value }

@[simp] theorem set_expr_self (memo : Memo) (expr : Nat) (value : GroupExpr) :
    (memo.setExpr expr value).exprs expr = value := update_self ..

theorem set_expr_other {memo : Memo} {expr other : Nat} (value : GroupExpr)
    (apart : other ≠ expr) : (memo.setExpr expr value).exprs other = memo.exprs other :=
  update_of_ne apart ..

@[simp] theorem set_group_self (memo : Memo) (group : Nat) (value : Group) :
    (memo.setGroup group value).groups group = value := update_self ..

theorem set_group_other {memo : Memo} {group other : Nat} (value : Group)
    (apart : other ≠ group) : (memo.setGroup group value).groups other = memo.groups other :=
  update_of_ne apart ..

def Group.addExpr (group : Group) (node : Node) (expr : Nat) : Group :=
  if node.isPhysical then
    { group with physicalExpressions := group.physicalExpressions ++ [expr] }
  else { group with logicalExpressions := group.logicalExpressions ++ [expr] }

def Memo.find (memo : Memo) (contents : Node) (childGroups : List Nat) : Option Nat :=
  (List.range memo.exprCount).find? fun expr =>
    (memo.exprs expr).contents = contents ∧ (memo.exprs expr).childGroups = childGroups

def Memo.addExpression (memo : Memo) (contents : Node) (childGroups : List Nat)
    (targetGroup : Option Nat) : Memo :=
  let groupId := targetGroup.getD memo.groupCount
  let group := if targetGroup.isNone then .empty else memo.groups groupId
  { exprCount := memo.exprCount + 1
    exprs := update memo.exprs memo.exprCount
      ⟨contents, childGroups, groupId, fun _ => false, none⟩
    groupCount := if targetGroup.isNone then memo.groupCount + 1 else memo.groupCount
    groups := update memo.groups groupId (group.addExpr contents memo.exprCount) }

structure Inserted where
  memo : Memo
  expr : Nat
  isNew : Bool

def Inserted.groupId (inserted : Inserted) : Nat := (inserted.memo.exprs inserted.expr).groupId

/-- `Memo::insert_expression`: the expression of the memo, which may be an older one. -/
def Memo.insertExpression (memo : Memo) (contents : Node) (childGroups : List Nat)
    (targetGroup : Option Nat) : Inserted :=
  match memo.find contents childGroups with
  | some expr => ⟨memo, expr, false⟩
  | none => ⟨memo.addExpression contents childGroups targetGroup, memo.exprCount, true⟩

def Memo.insertPlan : Plan → Memo → Inserted
  | .leaf op, memo => memo.insertExpression (.logical (.leaf op)) [] none
  | .unary op child, memo =>
    let below := insertPlan child memo
    below.memo.insertExpression (.logical (.unary op child)) [below.groupId] none
  | .join left right, memo =>
    let first := insertPlan left memo
    let second := insertPlan right first.memo
    second.memo.insertExpression (.logical (.join left right))
      [first.groupId, second.groupId] none

def Memo.makeGroupExpression (memo : Memo) : List Plan → Memo × List Nat
  | [] => (memo, [])
  | child :: rest =>
    let inserted := memo.insertPlan child
    let others := makeGroupExpression inserted.memo rest
    (others.1, inserted.groupId :: others.2)

def Memo.recordNodeIntoGroup (memo : Memo) (node : Node) (targetGroup : Option Nat) :
    Inserted :=
  let made := memo.makeGroupExpression node.generalChildren
  made.1.insertExpression node made.2 targetGroup

inductive Task where
  | optimizeGroup (group : Nat)
  | optimizeExpression (expr : Nat)
  | applyRule (expr : Nat) (rule : Rule)
  | optimizeInputs (expr : Nat) (curTotalCost curChildIdx prevChildIdx : Int)
  deriving DecidableEq, Repr

/-- `new OptimizeInputs(group_expr, context)`; the cost is set when the task is performed. -/
def Task.newInputs (expr : Nat) : Task := .optimizeInputs expr 0 (-1) (-1)

/-- `new OptimizeInputs(this)`: the copy takes over everything except `prev_child_idx_`. -/
def Task.copyInputs (expr : Nat) (curTotalCost curChildIdx : Int) : Task :=
  .optimizeInputs expr curTotalCost curChildIdx (-1)

def Memo.performOptimizeGroup (memo : Memo) (groupId : Nat) : Memo × List Task :=
  let group := memo.groups groupId
  if group.winner.isSome then (memo, [])
  else
    let expressions :=
      if group.hasExplored then [] else group.logicalExpressions.map Task.optimizeExpression
    let pushed := expressions ++ group.physicalExpressions.map Task.newInputs
    (memo.setGroup groupId { group with hasExplored := true }, pushed.reverse)

def GroupExpr.validRules (expr : GroupExpr) : List Rule :=
  physicalImplementation.filter fun rule =>
    !expr.ruleMask rule && (expr.contents.opType, expr.childGroups.length) = rule.matchPattern

def Memo.performOptimizeExpression (memo : Memo) (expr : Nat) : Memo × List Task :=
  (memo, ((memo.exprs expr).validRules.map (Task.applyRule expr)).reverse)

def Memo.recordAll (memo : Memo) (groupId : Nat) : List Node → Memo × List Task
  | [] => (memo, [])
  | node :: rest =>
    let recorded := memo.recordNodeIntoGroup node (some groupId)
    let pushed : List Task :=
      if recorded.isNew then
        if node.isPhysical then [.newInputs recorded.expr]
        else [.optimizeExpression recorded.expr]
      else []
    let others := recordAll recorded.memo groupId rest
    (others.1, others.2 ++ pushed)

def Memo.performApplyRule (memo : Memo) (expr : Nat) (rule : Rule) : Memo × List Task :=
  let groupExpr := memo.exprs expr
  if groupExpr.ruleMask rule then (memo, [])
  else
    let recorded := memo.recordAll groupExpr.groupId (rule.transform groupExpr.contents)
    let current := recorded.1.exprs expr
    (recorded.1.setExpr expr
      { current with ruleMask := update current.ruleMask rule true }, recorded.2)

inductive InputsLoop where
  | finished (total : Int)
  | childNotOptimized (total curChildIdx : Int) (childGroup : Nat)

/-- The loop of `OptimizeInputs` over the children from `cur_child_idx_` on. -/
def Memo.inputsLoop (memo : Memo) (prevChildIdx : Int) :
    List Nat → Int → Int → InputsLoop
  | [], total, _ => .finished total
  | childGroup :: rest, total, curChildIdx =>
    match (memo.groups childGroup).winner with
    | some (_, best) =>
      inputsLoop memo prevChildIdx rest
        (total + (memo.exprs best).lowestCost.getD 0) (curChildIdx + 1)
    | none =>
      if prevChildIdx ≠ curChildIdx then .childNotOptimized total curChildIdx childGroup
      else inputsLoop memo prevChildIdx rest total (curChildIdx + 1)

def GroupExpr.setLocalCost (expr : GroupExpr) (cost : Int) : GroupExpr :=
  match expr.lowestCost with
  | some lowest => if cost < lowest then { expr with lowestCost := some cost } else expr
  | none => { expr with lowestCost := some cost }

def Group.setExprCost (group : Group) (expr : Nat) (cost : Int) : Group :=
  match group.winner with
  | some (best, _) => if cost < best then { group with winner := some (cost, expr) } else group
  | none => { group with winner := some (cost, expr) }

section

variable (calculateCost : Memo → Nat → Int)

def Memo.performOptimizeInputs (memo : Memo) (expr : Nat)
    (curTotalCost curChildIdx prevChildIdx : Int) : Memo × List Task :=
  let total := if curChildIdx = -1 then calculateCost memo expr else curTotalCost
  let index := if curChildIdx = -1 then 0 else curChildIdx
  match memo.inputsLoop prevChildIdx ((memo.exprs expr).childGroups.drop index.toNat)
      total index with
  | .childNotOptimized total index childGroup =>
    (memo, [.optimizeGroup childGroup, .copyInputs expr total index])
  | .finished total =>
    let groupId := (memo.exprs expr).groupId
    ((memo.setExpr expr ((memo.exprs expr).setLocalCost total)).setGroup groupId
      ((memo.groups groupId).setExprCost expr total), [])

def perform (memo : Memo) : Task → Memo × List Task
  | .optimizeGroup group => memo.performOptimizeGroup group
  | .optimizeExpression expr => memo.performOptimizeExpression expr
  | .applyRule expr rule => memo.performApplyRule expr rule
  | .optimizeInputs expr total current previous =>
    memo.performOptimizeInputs calculateCost expr total current previous

end

inductive PhysicalPlan where
  | null
  | node (op : PhysicalOp) (children : List PhysicalPlan)

/-- `choose_best_plan` from the group down. The groups of children have smaller numbers, so
that the number of the group bounds the recursion. -/
def Memo.chooseBestPlan (memo : Memo) : Nat → Nat → PhysicalPlan
  | 0, _ => .null
  | depth + 1, groupId =>
    match (memo.groups groupId).winner with
    | none => .null
    | some (_, expr) =>
      match (memo.exprs expr).contents with
      | .logical _ => .null
      | .physical op _ =>
        .node op ((memo.exprs expr).childGroups.map fun child =>
          memo.chooseBestPlan depth child)

def Memo.initial (plan : Plan) : Memo × Nat :=
  let recorded := Memo.empty.recordNodeIntoGroup (.logical plan) none
  (recorded.memo, recorded.groupId)

/-- `Optimizer::optimize` with at most `count` tasks; `none` when tasks are left over. -/
def optimize (calculateCost : Memo → Nat → Int) (count : Nat) (plan : Plan) :
    Option PhysicalPlan :=
  let initial := Memo.initial plan
  let final := work (perform calculateCost) count (initial.1, [.optimizeGroup initial.2])
  if final.2.isEmpty then some (final.1.chooseBestPlan (initial.2 + 1) initial.2) else none

end CsuDbms.CascadeModel

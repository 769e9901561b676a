import Mathlib

/-!
# Predicate operators with a constant

`PredicateRewriteRule` removes a predicate operator that filters by a constant: a
true one gives its child to the operator above, a false one goes with everything
below it. The operator above then has no child, and only some physical plans can
be made without one. A scalar aggregate that gets no row gives none.
-/

namespace CsuDbms.ConstantPredicateModel

open List Option

variable {Tuple Table : Type}

/-- The expression of a predicate operator: a `ValueExpr`, or something to evaluate. -/
inductive Filter (Tuple : Type) where
  | value (flag : Bool)
  | condition (holds : Tuple → Bool)

def Filter.holds : Filter Tuple → Tuple → Bool
  | .value flag, _ => flag
  | .condition holds, tuple => holds tuple

inductive Operator (Tuple : Type) where
  | projection (project : Tuple → Tuple)
  | sort (order : List Tuple → List Tuple) (keeps : ∀ rows, order rows ~ rows)
  | hashGroupBy (group : List Tuple → List Tuple)
  | scalarGroupBy (aggregate : List Tuple → Tuple)
  | predicate (filter : Filter Tuple)
  | delete
  | update

/-- Logical plans; an operator loses its child if the rule removes it. -/
inductive Plan (Tuple Table : Type) where
  | tableGet (table : Table)
  | join (left right : Plan Tuple Table)
  | unary (operator : Operator Tuple) (child : Plan Tuple Table)
  | childless (operator : Operator Tuple)

def predicateRewrite : Plan Tuple Table → Plan Tuple Table
  | .unary parent (.unary (.predicate (.value true)) grandChild) => .unary parent grandChild
  | .unary parent (.unary (.predicate (.value false)) _) => .childless parent
  | .unary parent (.childless (.predicate (.value _))) => .childless parent
  | plan => plan

/-- Physical plans. The operators without a child are those made by
`create_plan(ProjectLogicalOperator)`, `..(DeleteLogicalOperator)` and
`..(UpdateLogicalOperator)`. -/
inductive Physical (Tuple Table : Type) where
  | tableScan (table : Table)
  | nestedLoopJoin (left right : Physical Tuple Table)
  | unary (operator : Operator Tuple) (child : Physical Tuple Table)
  | childless (operator : Operator Tuple)

def takesNoChild : Operator Tuple → Bool
  | .projection _ => true
  | .delete => true
  | .update => true
  | _ => false

/-- `PhysicalPlanGenerator::create`. The other operators assert that there is a child. -/
def create : Plan Tuple Table → Option (Physical Tuple Table)
  | .tableGet table => some (.tableScan table)
  | .join left right => do
      let leftChild ← create left
      let rightChild ← create right
      some (.nestedLoopJoin leftChild rightChild)
  | .unary operator child => (create child).map (.unary operator)
  | .childless operator => if takesNoChild operator then some (.childless operator) else none

def Operator.rows : Operator Tuple → List Tuple → List Tuple
  | .projection project, rows => rows.map project
  | .sort order _, rows => order rows
  | .hashGroupBy group, rows => group rows
  | .scalarGroupBy aggregate, rows => [aggregate rows]
  | .predicate filter, rows => rows.filter filter.holds
  | .delete, rows => rows
  | .update, rows => rows

/-- The same by `open` and `next`: `ScalarGroupByPhysicalOperator` has a group only if it got a
row. -/
def Operator.execute : Operator Tuple → List Tuple → List Tuple
  | .scalarGroupBy aggregate, rows => if rows.isEmpty then [] else [aggregate rows]
  | operator, rows => operator.rows rows

variable (scan : Table → List Tuple) (joinTuples : Tuple → Tuple → Tuple)

def joinRows (left right : List Tuple) : List Tuple :=
  left.flatMap fun tuple => right.map (joinTuples tuple)

def Physical.execute : Physical Tuple Table → List Tuple
  | .tableScan table => scan table
  | .nestedLoopJoin left right => joinRows joinTuples left.execute right.execute
  | .unary operator child => operator.execute child.execute
  | .childless _ => []

def Plan.rows : Plan Tuple Table → List Tuple
  | .tableGet table => scan table
  | .join left right => joinRows joinTuples left.rows right.rows
  | .unary operator child => operator.rows child.rows
  | .childless operator => operator.rows []

def AggregatesGetRows : Plan Tuple Table → Prop
  | .tableGet _ => True
  | .join left right => AggregatesGetRows left ∧ AggregatesGetRows right
  | .unary (.scalarGroupBy _) child =>
    child.rows scan joinTuples ≠ [] ∧ AggregatesGetRows child
  | .unary _ child => AggregatesGetRows child
  | .childless _ => True

/-- The row of an aggregate over no row is missing, and the operators above it pass that on. -/
def MissesAggregate : Plan Tuple Table → Prop
  | .unary (.scalarGroupBy _) child =>
    child.rows scan joinTuples = [] ∧ AggregatesGetRows scan joinTuples child
  | .unary (.projection _) child => MissesAggregate child
  | .unary (.sort _ _) child => MissesAggregate child
  | .unary .delete child => MissesAggregate child
  | .unary .update child => MissesAggregate child
  | _ => False

/-- One use of the rule somewhere in a plan, with the operator above the predicate operator it
removes and the constant of that one. -/
inductive Removal (parent : Operator Tuple) (flag : Bool) :
    Plan Tuple Table → Plan Tuple Table → Prop
  | here (child : Plan Tuple Table) :
      Removal parent flag (.unary parent (.unary (.predicate (.value flag)) child))
        (predicateRewrite (.unary parent (.unary (.predicate (.value flag)) child)))
  | under {child rewritten : Plan Tuple Table} (operator : Operator Tuple)
      (removal : Removal parent flag child rewritten) :
      Removal parent flag (.unary operator child) (.unary operator rewritten)
  | left {left rewritten : Plan Tuple Table} (right : Plan Tuple Table)
      (removal : Removal parent flag left rewritten) :
      Removal parent flag (.join left right) (.join rewritten right)
  | right {right rewritten : Plan Tuple Table} (left : Plan Tuple Table)
      (removal : Removal parent flag right rewritten) :
      Removal parent flag (.join left right) (.join left rewritten)

/-- The rewritten plan can be generated and gives the rows of the plan before. -/
def KeepsRows (plan rewritten : Plan Tuple Table) : Prop :=
  ∃ physical, create rewritten = some physical ∧
    physical.execute scan joinTuples = plan.rows scan joinTuples

variable {scan joinTuples} {plan rewritten : Plan Tuple Table} {parent : Operator Tuple}
  {flag : Bool} {physical : Physical Tuple Table}

theorem execute_rows (created : create plan = some physical)
    (aggregates : AggregatesGetRows scan joinTuples plan) :
    physical.execute scan joinTuples = plan.rows scan joinTuples := by
  induction plan generalizing physical with
  | tableGet table =>
    cases created
    rfl
  | join left right left_rows right_rows =>
    obtain ⟨leftChild, left_created, rest⟩ := bind_eq_some_iff.mp created
    obtain ⟨rightChild, right_created, result⟩ := bind_eq_some_iff.mp rest
    cases result
    rw [Physical.execute, left_rows left_created aggregates.1,
      right_rows right_created aggregates.2]
    rfl
  | unary operator child child_rows =>
    obtain ⟨below, child_created, result⟩ := map_eq_some_iff.mp created
    cases result
    cases operator with
    | scalarGroupBy aggregate =>
      rw [Physical.execute, child_rows child_created aggregates.2, Operator.execute,
        if_neg (by simpa using aggregates.1)]
      rfl
    | _ =>
      rw [Physical.execute, child_rows child_created aggregates]
      rfl
  | childless operator =>
    obtain ⟨takes, ⟨⟩⟩ := ite_none_right_eq_some.mp created
    cases operator <;> first | rfl | cases takes

theorem misses_aggregate (created : create plan = some physical)
    (misses : MissesAggregate scan joinTuples plan) :
    physical.execute scan joinTuples = [] ∧ (plan.rows scan joinTuples).length = 1 := by
  induction plan generalizing physical with
  | tableGet | join | childless => cases misses
  | unary operator child ih =>
    obtain ⟨below, child_created, result⟩ := map_eq_some_iff.mp created
    cases result
    cases operator with
    | scalarGroupBy aggregate =>
      rw [Physical.execute, execute_rows child_created misses.2, misses.1]
      exact ⟨rfl, rfl⟩
    | projection project =>
      obtain ⟨none, one⟩ := ih child_created misses
      rw [Physical.execute, none]
      exact ⟨rfl, length_map project |>.trans one⟩
    | sort order keeps =>
      obtain ⟨none, one⟩ := ih child_created misses
      rw [Physical.execute, none]
      exact ⟨perm_nil.mp (keeps []), (keeps _).length_eq.trans one⟩
    | delete | update =>
      obtain ⟨none, one⟩ := ih child_created misses
      rw [Physical.execute, none]
      exact ⟨rfl, one⟩
    | hashGroupBy | predicate => cases misses

section

variable (removal : Removal parent flag plan rewritten)
include removal

theorem removal_rows :
    rewritten.rows scan joinTuples = plan.rows scan joinTuples := by
  induction removal with
  | here child =>
    cases flag with
    | true =>
      have all : (child.rows scan joinTuples).filter (fun _ => true) =
          child.rows scan joinTuples := filter_true _
      exact (congrArg parent.rows all).symm
    | false =>
      have none : (child.rows scan joinTuples).filter (fun _ => false) = [] :=
        filter_false _
      exact (congrArg parent.rows none).symm
  | under operator _ ih => exact congrArg operator.rows ih
  | left right _ ih => exact congrArg (joinRows joinTuples · _) ih
  | right left _ ih => exact congrArg (joinRows joinTuples _) ih

theorem removal_creates (created : (create plan).isSome = true) :
    (create rewritten).isSome = true ↔ flag = true ∨ takesNoChild parent = true := by
  induction removal with
  | here child =>
    simp only [create, isSome_map] at created
    cases flag with
    | true => simpa [predicateRewrite, create] using created
    | false => cases takes : takesNoChild parent <;> simp [predicateRewrite, create, takes]
  | under operator _ ih =>
    simp only [create, isSome_map] at created ⊢
    exact ih created
  | left right _ ih =>
    obtain ⟨physical, result⟩ := isSome_iff_exists.mp created
    obtain ⟨leftChild, left_created, rest⟩ := bind_eq_some_iff.mp result
    obtain ⟨rightChild, right_created, _⟩ := bind_eq_some_iff.mp rest
    rw [← ih (isSome_iff_exists.mpr ⟨_, left_created⟩), create, right_created]
    cases create _ <;> rfl
  | right left _ ih =>
    obtain ⟨physical, result⟩ := isSome_iff_exists.mp created
    obtain ⟨leftChild, left_created, rest⟩ := bind_eq_some_iff.mp result
    obtain ⟨rightChild, right_created, _⟩ := bind_eq_some_iff.mp rest
    rw [← ih (isSome_iff_exists.mpr ⟨_, right_created⟩), create, left_created]
    cases create _ <;> rfl

end

/-- Without a true constant or such a parent no plan is generated. With one the plan gives the rows
if each aggregate left in it gets a row, and does not if the row of one shows to be missing. -/
theorem removal_keeps_rows (removal : Removal parent flag plan rewritten)
    (created : (create plan).isSome = true) :
    (KeepsRows scan joinTuples plan rewritten → flag = true ∨ takesNoChild parent = true) ∧
      (flag = true ∨ takesNoChild parent = true →
        AggregatesGetRows scan joinTuples rewritten → KeepsRows scan joinTuples plan rewritten) ∧
      (MissesAggregate scan joinTuples rewritten → ¬KeepsRows scan joinTuples plan rewritten) := by
  rw [← removal_creates removal created]
  refine ⟨?_, ?_, ?_⟩
  · intro ⟨physical, generated, _⟩
    exact isSome_iff_exists.mpr ⟨physical, generated⟩
  · intro generated aggregates
    obtain ⟨physical, result⟩ := isSome_iff_exists.mp generated
    refine ⟨physical, result, ?_⟩
    rw [execute_rows result aggregates, removal_rows removal]
  · intro misses ⟨physical, result, same⟩
    obtain ⟨none, one⟩ := misses_aggregate result misses
    rw [removal_rows removal, ← same, none] at one
    cases one

theorem delete_without_rows_keeps_rows :
    KeepsRows (fun _ : Unit => [3, 4]) (fun left _ => left)
      (.unary .delete (.unary (.predicate (.value false)) (.tableGet ()))) (.childless .delete) := by
  have removal : Removal .delete false
      (.unary .delete (.unary (.predicate (.value false)) (.tableGet ())))
      (.childless .delete : Plan Nat Unit) := .here (.tableGet ())
  exact (removal_keeps_rows removal rfl).2.1 (.inr rfl) trivial

/-- `SELECT COUNT(*) FROM t WHERE 1 = 2`, where the aggregate counts. -/
def countNothing : Plan Nat Unit :=
  .unary (.projection id)
    (.unary (.scalarGroupBy List.length) (.unary (.predicate (.value false)) (.tableGet ())))

/-- No plan can be made for an aggregate without a child. -/
theorem count_without_rows_has_no_plan :
    ¬ ∀ (parent : Operator Nat) (flag : Bool) (plan rewritten : Plan Nat Unit),
      Removal parent flag plan rewritten → (create plan).isSome = true →
        KeepsRows (fun _ => [3, 4]) (fun left _ => left) plan rewritten := by
  intro keeps
  obtain ⟨physical, created, _⟩ := keeps (.scalarGroupBy length) false countNothing _
    (.under (.projection id) (.here (.tableGet ()))) rfl
  cases created

end CsuDbms.ConstantPredicateModel

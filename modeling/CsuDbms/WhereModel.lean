import CsuDbms.SchemaCatalogModel
import CsuDbms.ValueModel

/-!
# The conditions of `SELECT`, `DELETE` and `UPDATE`

A list of comparisons joined by `AND` takes two ways through the server. `SELECT`
binds it to an expression that compares the operands as they are. `DELETE` and
`UPDATE` make filter units of it, for which the plan generator looks for an
implicit cast. Both plans go through the passes of the rewriter, which move the
comparisons to the scan of the table. What the scan of an index returns is an
argument.
-/

namespace CsuDbms.WhereModel

open LogicalPlanModel SchemaCatalogModel ValueModel

/-- What a field can hold. Nothing is read from a vector. -/
inductive FieldValue where
  | scalar (cell : Cell)
  | vectors
  deriving DecidableEq, Repr

def FieldValue.null : FieldValue := .scalar .null

def FieldValue.attrType : FieldValue → AttrType
  | .scalar .null => .undefined
  | .scalar (.chars _) => .chars
  | .scalar (.ints _) => .ints
  | .scalar (.floats _) => .floats
  | .scalar (.booleans _) => .booleans
  | .scalar (.dates _) => .dates
  | .vectors => .vectors

/-- What is taken as given of values: the reading of texts, and arithmetic, which no
comparison of the three statements contains. -/
class Conversions extends TextReading where
  parseDate : List UInt8 → Option (BitVec 32)
  calcValue : ArithmeticType → FieldValue → FieldValue → Option FieldValue
  calcNegative : FieldValue → Option FieldValue

variable [Conversions]

def FieldValue.compare : FieldValue → FieldValue → Option Int
  | .scalar left, .scalar right => left.compare Conversions.toTextReading right
  | .scalar (.chars _), .vectors => none
  | .scalar (.floats left), .vectors => some (compareFloat left 0)
  | .scalar (.dates left), .vectors => some (compareInt left 0)
  | _, _ => some int32Max

def FieldValue.compareValue (comp : CompOp) (left right : FieldValue) : Option Bool :=
  if comp = .isNull then some (left = .null)
  else if comp = .isNotNull then some (left ≠ .null)
  else if left = .null ∨ right = .null then some false
  else (left.compare right).map (compResult comp)

/-- `Value::cast_to`. The casts to `DATES` are those of `DateType`, the others those of the
type of the value. -/
def FieldValue.castTo (type : AttrType) (value : FieldValue) : Option FieldValue :=
  if value = .null then some .null
  else
    match type, value with
    | .dates, .scalar (.dates number) => some (.scalar (.dates number))
    | .dates, .scalar (.chars text) =>
      (Conversions.parseDate text).map fun number => .scalar (.dates number)
    | .dates, .scalar (.ints number) => some (.scalar (.dates number))
    | .floats, .scalar (.ints number) => some (.scalar (.floats (floatOfInt number)))
    | _, _ => none

def FieldValue.cast (type : AttrType) (value : FieldValue) : Option FieldValue :=
  if value.attrType = type then some value else value.castTo type

/-- A record: every field is null or holds a value of its type. -/
structure Row where
  cells : FieldMeta → FieldValue
  fits : ∀ field, cells field = .null ∨ (cells field).attrType = field.attrType

def rowOps : ValueOps FieldValue FieldMeta AttrType Row where
  getBoolean value := match value with
    | .scalar cell => cell.getBoolean
    | .vectors => false
  isBoolean value := value.attrType = .booleans
  setBoolean flag := .scalar (.booleans flag)
  get_set_boolean _ := rfl
  compareValue := FieldValue.compareValue
  calcValue := Conversions.calcValue
  calcNegative := Conversions.calcNegative
  castTo := FieldValue.cast
  findCell row field := some (row.cells field)

abbrev RowExpr := Expr FieldValue FieldMeta AttrType

structure RelAttr where
  relation : Option Name
  attributeName : Name
  deriving DecidableEq, Repr

/-- The constants of the grammar; a date is written as a text. -/
inductive Literal where
  | number (value : BitVec 32)
  | float (bits : BitVec 32)
  | text (bytes : List UInt8)
  | null
  deriving DecidableEq, Repr

def Literal.value : Literal → FieldValue
  | .number integer => .scalar (.ints integer)
  | .float bits => .scalar (.floats bits)
  | .text bytes => .scalar (.chars bytes)
  | .null => .null

inductive Operand where
  | attr (name : RelAttr)
  | value (literal : Literal)
  deriving DecidableEq, Repr

structure Condition where
  comp : CompOp
  left : Operand
  right : Operand
  deriving DecidableEq, Repr

/-- The table of a statement with its name as the statement writes it, which
`Db::find_table` compares without regard to case. -/
structure Target where
  table : TableMeta
  written : Name
  names : lowerCase written = lowerCase table.name

/-- An operand with its column found: `FieldExpr` or `ValueExpr`, and `FilterObj`. -/
inductive BoundOperand where
  | field (field : FieldMeta)
  | value (value : FieldValue)
  deriving DecidableEq, Repr

def BoundOperand.expr : BoundOperand → RowExpr
  | .field column => .field column
  | .value constant => .value constant

def BoundOperand.valueType : BoundOperand → AttrType
  | .field column => column.attrType
  | .value constant => constant.attrType

/-- `bind_unbound_field_expression`, with `BinderContext::find_table`. -/
def Target.bindField (target : Target) (attr : RelAttr) : Option FieldMeta :=
  match attr.relation with
  | none => target.table.field attr.attributeName
  | some relation =>
    if lowerCase relation = lowerCase target.table.name then
      target.table.field attr.attributeName
    else none

/-- `get_table_and_field`: the map of tables has the written name for its only key. -/
def Target.getTableAndField (target : Target) (attr : RelAttr) : Option FieldMeta :=
  match attr.relation with
  | none => target.table.field attr.attributeName
  | some relation =>
    if relation = target.written then target.table.field attr.attributeName else none

def bindOperand (find : RelAttr → Option FieldMeta) : Operand → Option BoundOperand
  | .attr attr => (find attr).map .field
  | .value literal => some (.value literal.value)

/-- `FilterUnit`, and the comparison that `SELECT` binds. -/
structure BoundCondition where
  comp : CompOp
  left : BoundOperand
  right : BoundOperand
  deriving DecidableEq, Repr

def bindCondition (find : RelAttr → Option FieldMeta) (condition : Condition) :
    Option BoundCondition := do
  let left ← bindOperand find condition.left
  let right ← bindOperand find condition.right
  some ⟨condition.comp, left, right⟩

/-- The cost of a cast that `cast_cost` does not know (`INT32_MAX`). -/
def noCast : Nat := 2 ^ 31 - 1

/-- `cast_cost` of the types: only integers have another type to go to. -/
def castCost (source target : AttrType) : Nat :=
  if source = target then 0
  else if source = .ints ∧ target = .floats then 1
  else noCast

def implicitCastCost (source target : AttrType) : Nat :=
  if source = target then 0 else castCost source target

/-- A constant is cast when the plan is made, a field when it is read. -/
def castOperand (operand : BoundOperand) (type : AttrType) : Option RowExpr :=
  match operand with
  | .value value => (value.cast type).map .value
  | .field field => some (.cast type (.field field))

/-- One turn of the loop of `create_plan(FilterStmt *)`. -/
def planUnit (unit : BoundCondition) : Option RowExpr :=
  let leftType := unit.left.valueType
  let rightType := unit.right.valueType
  if leftType ≠ rightType then
    let leftToRight := implicitCastCost leftType rightType
    let rightToLeft := implicitCastCost rightType leftType
    if leftToRight ≤ rightToLeft ∧ leftToRight ≠ noCast then
      (castOperand unit.left rightType).map fun left =>
        .comparison unit.comp left unit.right.expr
    else if rightToLeft < leftToRight ∧ rightToLeft ≠ noCast then
      (castOperand unit.right leftType).map fun right =>
        .comparison unit.comp unit.left.expr right
    else none
  else some (.comparison unit.comp unit.left.expr unit.right.expr)

/-- The loop of a scan or a filter; `none` where a comparison is undefined. -/
def scanRows (predicates : List RowExpr) : List Row → Option (List Row)
  | [] => some []
  | row :: rest => do
      let kept ← conjunctionValue rowOps row .and predicates
      let others ← scanRows predicates rest
      some (if kept then row :: others else others)

def isRange : CompOp → Bool
  | .equalTo | .lessThan | .lessEqual | .greatThan | .greatEqual => true
  | .notEqual | .isNull | .isNotNull => false

/-- A predicate for which `create_plan(TableGetLogicalOperator)` takes an index. -/
def usesIndex (target : Target) : RowExpr → Bool
  | .comparison comp (.field column) (.value _) =>
    isRange comp && column.name ∈ target.table.indexes.map IndexMeta.field
  | .comparison comp (.value _) (.field column) =>
    isRange comp && column.name ∈ target.table.indexes.map IndexMeta.field
  | _ => false

abbrev RowPlan := Plan FieldValue FieldMeta AttrType Unit

variable (indexScan : List RowExpr → List Row → Option (List Row))

/-- The rows that the physical plan hands on. -/
def execute (target : Target) (rows : List Row) : RowPlan → Option (List Row)
  | .tableGet _ predicates =>
    if predicates.any (usesIndex target) then indexScan predicates rows
    else scanRows predicates rows
  | .unary .predicate expressions child =>
    (execute target rows child).bind (scanRows expressions)
  | .unary _ _ child => execute target rows child
  | .childless _ _ => some []
  | .join _ _ => none

/-- The loop of the optimizer over the passes of the rewriter. -/
def optimize : Nat → RowPlan → Option RowPlan
  | 0, plan => some plan
  | passes + 1, plan =>
    (rewritePass rowOps plan).bind fun rewritten => optimize passes rewritten.result

inductive Outcome where
  | refused
  | rows (rows : List Row)
  | undefined

def Outcome.touched : Outcome → Option (List Row)
  | .refused => some []
  | .rows found => some found
  | .undefined => none

def Outcome.ofScan : Option (List Row) → Outcome
  | some found => .rows found
  | none => .undefined

def BoundCondition.comparison (condition : BoundCondition) : RowExpr :=
  .comparison condition.comp condition.left.expr condition.right.expr

/-- `boolean_expr AND boolean_expr` groups to the left. -/
def nestAnd (first : RowExpr) (rest : List RowExpr) : RowExpr :=
  rest.foldl (fun before next => .conjunction .and [before, next]) first

/-- The plan of a statement with the filter, if it has one. -/
def wherePlan (type : LogicalOperatorType) : Option RowExpr → RowPlan
  | none => .unary type [] (.tableGet () [])
  | some filter => .unary type [] (.unary .predicate [filter] (.tableGet () []))

/-- The loop makes one pass, and others as long as something changed. -/
def runPlan (target : Target) (passes : Nat) (plan : RowPlan) (rows : List Row) : Outcome :=
  match optimize (passes + 1) plan with
  | none => .refused
  | some last => .ofScan (execute indexScan target rows last)

def selectOutcome (target : Target) (passes : Nat) (conditions : List Condition)
    (rows : List Row) : Outcome :=
  match conditions.mapM (bindCondition target.bindField) with
  | none => .refused
  | some [] => runPlan indexScan target passes (wherePlan .projection none) rows
  | some (first :: rest) =>
    runPlan indexScan target passes (wherePlan .projection
      (some (nestAnd first.comparison (rest.map BoundCondition.comparison)))) rows

/-- `DELETE` and, with the other operator, `UPDATE`. The grammar puts the last condition first. -/
def changeOutcome (type : LogicalOperatorType) (target : Target) (passes : Nat)
    (conditions : List Condition) (rows : List Row) : Outcome :=
  match conditions.reverse.mapM (bindCondition target.getTableAndField) with
  | none => .refused
  | some units =>
    match units.mapM planUnit with
    | none => .refused
    | some [] => runPlan indexScan target passes (wherePlan type none) rows
    | some comparisons =>
      runPlan indexScan target passes
        (wherePlan type (some (.conjunction .and comparisons))) rows

def deleteOutcome (target : Target) (passes : Nat) (conditions : List Condition)
    (rows : List Row) : Outcome :=
  changeOutcome indexScan .delete target passes conditions rows

def isNumericalType (type : AttrType) : Bool := type = .ints ∨ type = .floats

/-- What `UpdateStmt::create` asks of the assignment. -/
def acceptsSet (target : Target) (attributeName : Name) (literal : Literal) : Bool :=
  match target.table.field attributeName with
  | none => false
  | some field =>
    literal.value.attrType = field.attrType ||
      isNumericalType literal.value.attrType && isNumericalType field.attrType &&
        (literal.value.castTo field.attrType).isSome

def updateOutcome (target : Target) (attributeName : Name) (literal : Literal) (passes : Nat)
    (conditions : List Condition) (rows : List Row) : Outcome :=
  if acceptsSet target attributeName literal then
    changeOutcome indexScan .update target passes conditions rows
  else .refused

end CsuDbms.WhereModel

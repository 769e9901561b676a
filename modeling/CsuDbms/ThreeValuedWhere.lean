import CsuDbms.ValueModel

/-!
# `WHERE` and three-valued logic

The conditions of `SELECT` as the grammar writes them, the expressions that its
actions build, and the truth that SQL gives them. The values other than null are
a parameter: what arithmetic makes of them and how they compare.
-/

namespace CsuDbms.WhereTruth

open LogicalPlanModel ValueModel

/-- `Value`: null, a truth value, or a value of a column or constant. -/
inductive Datum (Known : Type) where
  | null
  | boolean (flag : Bool)
  | known (value : Known)
  deriving DecidableEq

/-- `none` is the operand null, whose `get_int` and `get_float` are 0: the result of
arithmetic is never null. -/
structure KnownValues (Known : Type) where
  getBoolean : Known → Bool
  compare : Known → Known → Int
  compute : ArithmeticType → Option Known → Option Known → Known
  negative : Option Known → Known

inductive Operand (Column Known : Type) where
  | column (name : Column)
  | constant (value : Option Known)
  | arithmetic (type : ArithmeticType) (left right : Operand Column Known)
  | negative (child : Operand Column Known)

/-- `boolean_expr`; the comparison operators here are those of `comp_op`. -/
inductive Condition (Column Known : Type) where
  | comparison (comp : CompOp) (isComparison : comp ≠ .isNull ∧ comp ≠ .isNotNull)
      (left right : Operand Column Known)
  | isNull (operand : Operand Column Known)
  | isNotNull (operand : Operand Column Known)
  | and (left right : Condition Column Known)
  | or (left right : Condition Column Known)
  | not (child : Condition Column Known)

section
variable {Column Known : Type} (values : KnownValues Known)

def Datum.ofOption : Option Known → Datum Known
  | none => .null
  | some value => .known value

def Datum.toOption : Datum Known → Option Known
  | .known value => some value
  | _ => none

def compareDatum (comp : CompOp) (left right : Datum Known) : Bool :=
  match comp, left, right with
  | .isNull, .null, _ => true
  | .isNull, _, _ => false
  | .isNotNull, .null, _ => false
  | .isNotNull, _, _ => true
  | _, .null, _ => false
  | _, _, .null => false
  | comp, .boolean left, .boolean right =>
    compResult comp (if left = right then 0 else if left then 1 else -1)
  | comp, .known left, .known right => compResult comp (values.compare left right)
  | comp, _, _ => compResult comp int32Max

def datumOps : ValueOps (Datum Known) Column Unit (Column → Option Known) where
  getBoolean
    | .null => false
    | .boolean flag => flag
    | .known value => values.getBoolean value
  isBoolean
    | .boolean _ => true
    | _ => false
  setBoolean := .boolean
  get_set_boolean _ := rfl
  compareValue comp left right := some (compareDatum values comp left right)
  calcValue type left right := some (.known (values.compute type left.toOption right.toOption))
  calcNegative value := some (.known (values.negative value.toOption))
  castTo _ value := some value
  findCell row column := some (.ofOption (row column))

def Operand.expr : Operand Column Known → Expr (Datum Known) Column Unit
  | .column name => .field name
  | .constant value => .value (.ofOption value)
  | .arithmetic type left right => .arithmetic type left.expr right.expr
  | .negative child => .negative child.expr

/-- `NOT` is a comparison with the constant `FALSE`. -/
def Condition.expr : Condition Column Known → Expr (Datum Known) Column Unit
  | .comparison comp _ left right => .comparison comp left.expr right.expr
  | .isNull operand => .comparison .isNull operand.expr (.value .null)
  | .isNotNull operand => .comparison .isNotNull operand.expr (.value .null)
  | .and left right => .conjunction .and [left.expr, right.expr]
  | .or left right => .conjunction .or [left.expr, right.expr]
  | .not child => .comparison .equalTo child.expr (.value (.boolean false))

variable (row : Column → Option Known)

def Operand.sqlValue : Operand Column Known → Option Known
  | .column name => row name
  | .constant value => value
  | .arithmetic type left right =>
    match left.sqlValue, right.sqlValue with
    | some left, some right => some (values.compute type (some left) (some right))
    | _, _ => none
  | .negative child => child.sqlValue.map fun value => values.negative (some value)

/-- `none` is unknown. -/
def Condition.sqlTruth : Condition Column Known → Option Bool
  | .comparison comp _ left right =>
    match left.sqlValue values row, right.sqlValue values row with
    | some left, some right => some (compResult comp (values.compare left right))
    | _, _ => none
  | .isNull operand => some (operand.sqlValue values row).isNone
  | .isNotNull operand => some (operand.sqlValue values row).isSome
  | .and left right =>
    match left.sqlTruth, right.sqlTruth with
    | some false, _ => some false
    | _, some false => some false
    | some true, some true => some true
    | _, _ => none
  | .or left right =>
    match left.sqlTruth, right.sqlTruth with
    | some true, _ => some true
    | _, some true => some true
    | some false, some false => some false
    | _, _ => none
  | .not child => child.sqlTruth.map (!·)

/-- No arithmetic has an operand that is null. -/
def Operand.Computable : Operand Column Known → Prop
  | .column _ => True
  | .constant _ => True
  | .arithmetic _ left right =>
    left.Computable ∧ right.Computable ∧
      left.sqlValue values row ≠ none ∧ right.sqlValue values row ≠ none
  | .negative child => child.Computable ∧ child.sqlValue values row ≠ none

/-- The truth in two-valued logic, where a comparison with null is false. -/
def Condition.twoValued : Condition Column Known → Bool
  | .comparison comp _ left right =>
    match left.sqlValue values row, right.sqlValue values row with
    | some left, some right => compResult comp (values.compare left right)
    | _, _ => false
  | .isNull operand => (operand.sqlValue values row).isNone
  | .isNotNull operand => (operand.sqlValue values row).isSome
  | .and left right => left.twoValued && right.twoValued
  | .or left right => left.twoValued || right.twoValued
  | .not child => !child.twoValued

/-- No arithmetic that the evaluation comes to has an operand that is null. The right side of
`AND` and `OR` is left out if the left one decides. -/
def Condition.Computable : Condition Column Known → Prop
  | .comparison _ _ left right => left.Computable values row ∧ right.Computable values row
  | .isNull operand => operand.Computable values row
  | .isNotNull operand => operand.Computable values row
  | .and left right => left.Computable ∧ (left.twoValued values row = true → right.Computable)
  | .or left right => left.Computable ∧ (left.twoValued values row = false → right.Computable)
  | .not child => child.Computable

/-- Nor does it come to a `NOT` over an unknown condition. -/
def Condition.NegatesKnown : Condition Column Known → Prop
  | .and left right => left.NegatesKnown ∧ (left.twoValued values row = true → right.NegatesKnown)
  | .or left right => left.NegatesKnown ∧ (left.twoValued values row = false → right.NegatesKnown)
  | .not child => child.NegatesKnown ∧ child.sqlTruth values row ≠ none
  | _ => True

variable {values row}

section
variable {left right : Expr (Datum Known) Column Unit}

theorem comparison_value (comp : CompOp) {leftValue rightValue : Datum Known}
    (leftIs : getValue (datumOps values) row left = some leftValue)
    (rightIs : getValue (datumOps values) row right = some rightValue) :
    getValue (datumOps values) row (.comparison comp left right) =
      some (.boolean (compareDatum values comp leftValue rightValue)) := by
  rw [getValue, leftIs, rightIs]
  rfl

theorem conjunction_value (type : ConjunctionType) {leftFlag rightFlag : Bool}
    (leftIs : getValue (datumOps values) row left = some (.boolean leftFlag))
    (rightIs : leftFlag = decide (type = .and) →
      getValue (datumOps values) row right = some (.boolean rightFlag)) :
    getValue (datumOps values) row (.conjunction type [left, right]) =
      some (.boolean (if type = .and then leftFlag && rightFlag else leftFlag || rightFlag)) := by
  rw [getValue, conjunctionValue, conjunctionValue, leftIs]
  cases type with
  | and =>
    cases leftFlag with
    | false => rfl
    | true =>
      rw [rightIs rfl]
      cases rightFlag <;> rfl
  | or =>
    cases leftFlag with
    | true => rfl
    | false =>
      rw [rightIs rfl]
      cases rightFlag <;> rfl

end

theorem operand_value {operand : Operand Column Known}
    (computable : operand.Computable values row) :
    getValue (datumOps values) row operand.expr =
      some (.ofOption (operand.sqlValue values row)) := by
  induction operand with
  | column name => rfl
  | constant value => rfl
  | arithmetic type left right leftIh rightIh =>
    obtain ⟨leftComputable, rightComputable, leftKnown, rightKnown⟩ := computable
    obtain ⟨leftValue, leftIs⟩ := Option.ne_none_iff_exists'.mp leftKnown
    obtain ⟨rightValue, rightIs⟩ := Option.ne_none_iff_exists'.mp rightKnown
    rw [Operand.expr, getValue, leftIh leftComputable, rightIh rightComputable, Operand.sqlValue,
      leftIs, rightIs]
    rfl
  | negative child ih =>
    obtain ⟨value, known⟩ := Option.ne_none_iff_exists'.mp computable.2
    rw [Operand.expr, getValue, ih computable.1, Operand.sqlValue, known]
    rfl

theorem condition_value {condition : Condition Column Known}
    (computable : condition.Computable values row) :
    getValue (datumOps values) row condition.expr =
      some (.boolean (condition.twoValued values row)) := by
  induction condition with
  | comparison comp isComparison left right =>
    have notNullTest := isComparison
    rw [Condition.expr,
      comparison_value comp (operand_value computable.1) (operand_value computable.2),
      Condition.twoValued]
    cases left.sqlValue values row <;> cases right.sqlValue values row <;>
      cases comp <;> simp_all [compareDatum, Datum.ofOption]
  | isNull operand =>
    rw [Condition.expr, comparison_value .isNull (operand_value computable) rfl,
      Condition.twoValued]
    cases operand.sqlValue values row <;> rfl
  | isNotNull operand =>
    rw [Condition.expr, comparison_value .isNotNull (operand_value computable) rfl,
      Condition.twoValued]
    cases operand.sqlValue values row <;> rfl
  | and left right leftIh rightIh =>
    exact conjunction_value .and (leftIh computable.1)
      fun reached => rightIh (computable.2 (by simpa using reached))
  | or left right leftIh rightIh =>
    exact conjunction_value .or (leftIh computable.1)
      fun reached => rightIh (computable.2 (by simpa using reached))
  | not child ih =>
    rw [Condition.expr, comparison_value .equalTo (ih computable) rfl, Condition.twoValued]
    cases child.twoValued values row <;> rfl

/-- Where the condition is not unknown, reading unknown comparisons as false changes nothing. -/
theorem two_valued_of_known {condition : Condition Column Known} {flag : Bool}
    (known : condition.sqlTruth values row = some flag) :
    condition.twoValued values row = flag := by
  induction condition generalizing flag with
  | comparison comp isComparison left right =>
    rw [Condition.sqlTruth] at known
    rw [Condition.twoValued]
    cases leftIs : left.sqlValue values row <;> cases rightIs : right.sqlValue values row <;>
      simp_all
  | isNull operand => exact Option.some.inj known
  | isNotNull operand => exact Option.some.inj known
  | and left right leftIh rightIh =>
    rw [Condition.sqlTruth] at known
    rw [Condition.twoValued]
    rcases leftIs : left.sqlTruth values row with _ | _ | _ <;>
      rcases rightIs : right.sqlTruth values row with _ | _ | _ <;>
      simp_all
  | or left right leftIh rightIh =>
    rw [Condition.sqlTruth] at known
    rw [Condition.twoValued]
    rcases leftIs : left.sqlTruth values row with _ | _ | _ <;>
      rcases rightIs : right.sqlTruth values row with _ | _ | _ <;>
      simp_all
  | not child ih =>
    obtain ⟨value, childKnown, rfl⟩ := Option.map_eq_some_iff.mp known
    exact congrArg _ (ih childKnown)

theorem two_valued_of_unknown {condition : Condition Column Known}
    (negates : condition.NegatesKnown values row)
    (unknown : condition.sqlTruth values row = none) :
    condition.twoValued values row = false := by
  induction condition with
  | comparison comp isComparison left right =>
    rw [Condition.sqlTruth] at unknown
    rw [Condition.twoValued]
    cases leftIs : left.sqlValue values row <;> cases rightIs : right.sqlValue values row <;>
      simp_all
  | isNull operand => cases unknown
  | isNotNull operand => cases unknown
  | and left right leftIh rightIh =>
    rw [Condition.twoValued, Bool.and_eq_false_imp]
    intro leftTrue
    -- the left side is true, for it would be read as false if it were not
    apply rightIh (negates.2 leftTrue)
    rw [Condition.sqlTruth] at unknown
    rcases leftIs : left.sqlTruth values row with _ | _ | _
    · rw [leftIh negates.1 leftIs] at leftTrue
      cases leftTrue
    · rw [two_valued_of_known leftIs] at leftTrue
      cases leftTrue
    · rcases rightIs : right.sqlTruth values row with _ | _ | _ <;> simp_all
  | or left right leftIh rightIh =>
    rw [Condition.sqlTruth] at unknown
    have leftFalse : left.twoValued values row = false := by
      rcases leftIs : left.sqlTruth values row with _ | _ | _
      · exact leftIh negates.1 leftIs
      · exact two_valued_of_known leftIs
      · simp [leftIs] at unknown
    rw [Condition.twoValued, leftFalse, Bool.false_or]
    rcases rightIs : right.sqlTruth values row with _ | _ | _
    · exact rightIh (negates.2 leftFalse) rightIs
    · exact two_valued_of_known rightIs
    · rcases leftIs : left.sqlTruth values row with _ | _ | _ <;> simp_all
  | not child ih => exact absurd (Option.map_eq_none_iff.mp unknown) negates.2

end

def integers : KnownValues Int where
  getBoolean value := value ≠ 0
  compare left right := left - right
  compute type left right :=
    match type with
    | .add => left.getD 0 + right.getD 0
    | .sub => left.getD 0 - right.getD 0
    | .mul => left.getD 0 * right.getD 0
    | .div => left.getD 0 / right.getD 0
  negative value := -value.getD 0

def notOne : Condition Unit Int :=
  .not (.comparison .equalTo (by decide) (.column ()) (.constant (some 1)))

def nullOrNotOne : Condition Unit Int := .or (.isNull (.column ())) notOne

end CsuDbms.WhereTruth

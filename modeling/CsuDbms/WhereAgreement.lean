import CsuDbms.ListTraversal
import CsuDbms.WhereModel

/-!
# Same conditions, same rows

`DELETE` and `UPDATE` refuse a statement if the plan generator finds comparisons of types that are
not compatible, or a column qualified by another name than the table's as the statement writes it.
`SELECT` compares all the same. The rewriter leaves the comparisons to the scan of the table as
long as none is of two constants: such a one it replaces by its value, and a false value makes
it forget other comparisons of the conjunction, which ones depends on their order.
-/

namespace CsuDbms.WhereModel

open ListTraversal LogicalPlanModel SchemaCatalogModel ValueModel List Option Function BoundCondition

section Trees

/-- What a side of a planned comparison can be. -/
def IsOperand : RowExpr → Prop
  | .field _ | .value _ | .cast _ (.field _) => True
  | _ => False

def IsValue : RowExpr → Prop
  | .value _ => True
  | _ => False

/-- Comparisons, none of two constants, and what is left where they were moved out: true
constants and conjunctions. -/
inductive Tree : RowExpr → Prop
  | comparison {comp : CompOp} {left right : RowExpr} (leftSide : IsOperand left)
      (rightSide : IsOperand right) (column : ¬(IsValue left ∧ IsValue right)) :
      Tree (.comparison comp left right)
  | constant : Tree (.value (.scalar (.booleans true)))
  | conjunction {children : List RowExpr} (trees : ∀ child ∈ children, Tree child) :
      Tree (.conjunction .and children)

/-- The comparisons of a filter, in the order of the list that is handed to the scan. -/
def parts (expr : RowExpr) : List RowExpr := (exprsCanPushdown expr).2

theorem parts_and (children : List RowExpr) :
    parts (.conjunction .and children) = children.flatMap parts := by
  rw [parts, exprsCanPushdown]
  induction children with
  | nil => simp [childrenCanPushdown]
  | cons child rest ih =>
    rw [childrenCanPushdown, flatMap_cons, ← ih]
    rfl

@[simp] theorem parts_comparison (comp : CompOp) (left right : RowExpr) :
    parts (.comparison comp left right) = [.comparison comp left right] := by
  simp [parts, exprsCanPushdown]

@[simp] theorem parts_value (constant : FieldValue) : parts (.value constant) = [] := by
  simp [parts, exprsCanPushdown]

variable {expr : RowExpr} {children : List RowExpr}

theorem rewrite_each_trees
    {rewriteOne : RowExpr → Option (Rewritten RowExpr)}
    (one : ∀ expr, Tree expr → ∃ rewritten, rewriteOne expr = some rewritten ∧
      Tree rewritten.result ∧ parts rewritten.result = parts expr)
    (trees : ∀ child ∈ children, Tree child) :
    ∃ rewritten, rewriteEach rewriteOne children = some rewritten ∧
      (∀ child ∈ rewritten.result, Tree child) ∧
      rewritten.result.flatMap parts = children.flatMap parts := by
  induction children with
  | nil => exact ⟨_, rfl, trees, rfl⟩
  | cons child rest ih =>
    obtain ⟨tree, trees⟩ := forall_mem_cons.mp trees
    obtain ⟨first, rewritten, formed, same⟩ := one child tree
    obtain ⟨others, rewrittenRest, formedRest, sameRest⟩ := ih trees
    refine ⟨⟨first.result :: others.result, first.changeMade || others.changeMade⟩, ?_,
      forall_mem_cons.mpr ⟨formed, formedRest⟩, ?_⟩
    · rw [rewriteEach, rewritten, rewrittenRest]
      rfl
    · rw [flatMap_cons, flatMap_cons, same, sameRest]

theorem child_of_remaining {remaining : RowExpr}
    (stays : remaining ∈ (childrenCanPushdown children).1) :
    ∃ child ∈ children, remaining ∈ (exprsCanPushdown child).1 := by
  induction children with
  | nil => simp [childrenCanPushdown] at stays
  | cons child rest ih =>
    simp only [childrenCanPushdown, mem_append, mem_toList] at stays
    rcases stays with first | others
    · exact ⟨child, .head _, first⟩
    · obtain ⟨other, member, own⟩ := ih others
      exact ⟨other, .tail _ member, own⟩

/-- Nothing is left to move out of what stays. -/
theorem remaining_tree (tree : Tree expr) :
    ∀ remaining ∈ (exprsCanPushdown expr).1, Tree remaining ∧ parts remaining = [] := by
  induction tree with
  | comparison => simp [exprsCanPushdown]
  | constant =>
    simp only [exprsCanPushdown, mem_some_iff, forall_eq']
    exact ⟨.constant, parts_value _⟩
  | @conjunction children _ ih =>
    simp only [exprsCanPushdown, mem_some_iff, forall_eq', parts_and, flatMap_eq_nil_iff]
    have rest : ∀ remaining ∈ (childrenCanPushdown children).1,
        Tree remaining ∧ parts remaining = [] := by
      intro remaining stays
      obtain ⟨child, member, own⟩ := child_of_remaining stays
      exact ih child member remaining own
    exact ⟨.conjunction fun child member => (rest child member).1,
      fun child member => (rest child member).2⟩

variable [Conversions]

theorem bool_constant_tree (tree : Tree expr) :
    boolConstant rowOps expr = some true ∧ parts expr = [] ∨
      boolConstant rowOps expr = none := by
  cases tree with
  | constant => exact .inl ⟨rfl, parts_value _⟩
  | comparison | conjunction => exact .inr rfl

theorem drop_neutral_trees (kept : List RowExpr) (trees : ∀ child ∈ children, Tree child) :
    ∃ rest, dropNeutral rowOps .and kept children = (none, kept ++ rest) ∧
      (∀ child ∈ rest, Tree child) ∧ rest.flatMap parts = children.flatMap parts := by
  induction children generalizing kept with
  | nil => exact ⟨[], by simp [dropNeutral], trees, rfl⟩
  | cons child others ih =>
    obtain ⟨tree, trees⟩ := forall_mem_cons.mp trees
    rw [dropNeutral]
    rcases bool_constant_tree tree with ⟨constant, none⟩ | constant
    · obtain ⟨rest, dropped, formed, same⟩ := ih kept trees
      refine ⟨rest, ?_, formed, ?_⟩
      · simp only [constant, decide_true, if_true, dropped]
      · rw [same, flatMap_cons, none, nil_append]
    · obtain ⟨rest, dropped, formed, same⟩ := ih (kept ++ [child]) trees
      refine ⟨child :: rest, ?_, forall_mem_cons.mpr ⟨tree, formed⟩, ?_⟩
      · simp only [constant, dropped, append_assoc, singleton_append]
      · rw [flatMap_cons, flatMap_cons, same]

theorem conjunction_rule_tree (trees : ∀ child ∈ children, Tree child) :
    Tree (conjunctionRule rowOps (.conjunction .and children)).result ∧
      parts (conjunctionRule rowOps (.conjunction .and children)).result =
        children.flatMap parts := by
  obtain ⟨rest, dropped, formed, same⟩ := drop_neutral_trees [] trees
  rw [nil_append] at dropped
  simp only [conjunctionRule, dropped, ← same]
  split
  · rename_i shape
    cases shape
  · rename_i child shape
    cases shape
    exact ⟨formed child (.head _), by simp⟩
  · rename_i shape
    cases shape
    exact ⟨.conjunction formed, parts_and rest⟩

theorem apply_rules_tree (tree : Tree expr) :
    ∃ ruled, applyRules rowOps expr = some ruled ∧ Tree ruled.result ∧
      parts ruled.result = parts expr := by
  have whole := tree
  cases tree with
  | @comparison comp left right _ _ column =>
    refine ⟨⟨.comparison comp left right, false⟩, ?_, whole, rfl⟩
    cases left <;> cases right <;> first | rfl | exact absurd ⟨trivial, trivial⟩ column
  | constant => exact ⟨⟨_, false⟩, rfl, whole, rfl⟩
  | @conjunction children trees =>
    have ruled := conjunction_rule_tree trees
    exact ⟨_, rfl, ruled.1, ruled.2.trans (parts_and children).symm⟩

theorem operand_kept (fuel : Nat) (operand : IsOperand expr) :
    ∃ flag, rewriteExpression rowOps fuel expr = some ⟨expr, flag⟩ := by
  cases fuel with
  | zero => exact ⟨false, rfl⟩
  | succ fuel =>
    cases expr with
    | field | value => exact ⟨false, rfl⟩
    | cast type child =>
      cases child with
      | field column => cases fuel <;> exact ⟨false, rfl⟩
      | _ => exact operand.elim
    | _ => exact operand.elim

/-- The rules change the shape of the filter, not the comparisons or their order. -/
theorem rewrite_expression_tree (fuel : Nat) (expr : RowExpr) (tree : Tree expr) :
    ∃ rewritten, rewriteExpression rowOps fuel expr = some rewritten ∧
      Tree rewritten.result ∧ parts rewritten.result = parts expr := by
  induction fuel generalizing expr with
  | zero => exact ⟨_, rfl, tree, rfl⟩
  | succ fuel ih =>
    obtain ⟨⟨result, changed⟩, applied, formed, same⟩ := apply_rules_tree tree
    rw [rewriteExpression, applied]
    dsimp only at formed same
    cases changed with
    | true => exact ⟨_, rfl, formed, same⟩
    | false =>
      have whole := formed
      cases formed with
      | @comparison comp left right leftSide rightSide =>
        obtain ⟨flagLeft, keptLeft⟩ := operand_kept fuel leftSide
        obtain ⟨flagRight, keptRight⟩ := operand_kept fuel rightSide
        refine ⟨⟨.comparison comp left right, flagLeft || flagRight⟩, ?_, whole, same⟩
        simp [keptLeft, keptRight]
      | constant => exact ⟨_, rfl, whole, same⟩
      | conjunction trees =>
        rw [parts_and] at same
        obtain ⟨inner, rewritten, innerFormed, innerSame⟩ := rewrite_each_trees ih trees
        refine ⟨⟨.conjunction .and inner.result, inner.changeMade⟩, ?_, .conjunction innerFormed, ?_⟩
        · simp [rewritten]
        · rw [parts_and, innerSame, same]

theorem remaining_predicate_tree (tree : Tree expr) :
    Tree (remainingPredicate rowOps (exprsCanPushdown expr).1) ∧
      parts (remainingPredicate rowOps (exprsCanPushdown expr).1) = [] := by
  have stays := remaining_tree tree
  unfold remainingPredicate
  split
  · exact ⟨.constant, parts_value _⟩
  · exact ⟨.constant, parts_value _⟩
  · rename_i remaining _ shape
    exact stays remaining shape

theorem conjunction_value_all {Children : Type} {row : Row} {children : List Children}
    {expr : Children → RowExpr} {truth : Children → Bool}
    (values : ∀ child ∈ children, getValue rowOps row (expr child) =
      some (rowOps.setBoolean (truth child))) :
    conjunctionValue rowOps row .and (children.map expr) =
      some (children.all truth) := by
  induction children with
  | nil => rfl
  | cons child rest ih =>
    have tail := ih fun other member => values other (.tail _ member)
    rw [map_cons, conjunctionValue, values child (.head _), all_cons]
    simp only [bind_some, bind, rowOps.get_set_boolean]
    cases truth child with
    | false => rfl
    | true => simpa using tail

theorem tree_without_parts (row : Row) (tree : Tree expr) (bare : parts expr = []) :
    getValue rowOps row expr = some (rowOps.setBoolean true) := by
  induction tree with
  | comparison => simp at bare
  | constant => rfl
  | @conjunction children _ ih =>
    rw [parts_and, flatMap_eq_nil_iff] at bare
    have all := @conjunction_value_all _ _ row children id (fun _ => true)
      fun child member => ih child member (bare child member)
    rw [List.map_id] at all
    rw [getValue, all, all_eq_true.mpr fun _ _ => rfl]
    split <;> rfl

end Trees

section Plans

variable [Conversions] {expr : RowExpr} {filter predicates : List RowExpr}
  {type : LogicalOperatorType} {plan : RowPlan}

/-- The plan of a statement, with these comparisons in the predicate operator and those in the
scan. The operator is gone once its constant was found true. -/
def Filtered (type : LogicalOperatorType) (filter predicates : List RowExpr) (plan : RowPlan) :
    Prop :=
  plan = .unary type [] (.tableGet () predicates) ∧ filter = [] ∨
    ∃ expr, plan = .unary type [] (.unary .predicate [expr] (.tableGet () predicates)) ∧
      Tree expr ∧ parts expr = filter

theorem expression_rewriter_predicate (predicates : List RowExpr) (tree : Tree expr) :
    ∃ rewritten flag, expressionRewriter rowOps
        (.unary .predicate [expr] (.tableGet () predicates) : RowPlan) =
          some ⟨.unary .predicate [rewritten] (.tableGet () predicates), flag⟩ ∧
      Tree rewritten ∧ parts rewritten = parts expr := by
  obtain ⟨⟨result, changed⟩, rewritten, formed, same⟩ :=
    rewrite_expression_tree (exprDepth expr) expr tree
  exact ⟨result, changed, by simp [expressionRewriter, rewriteEach, rewritten], formed, same⟩

/-- At the predicate operator the comparisons replace what the scan held. -/
theorem predicate_rewritten (predicates : List RowExpr) (tree : Tree expr) :
    ∃ remaining flag, rewriterRewrite rowOps 2
        (.unary .predicate [expr] (.tableGet () predicates) : RowPlan) =
          some ⟨.unary .predicate [remaining] (.tableGet ()
            (if (parts expr).isEmpty then predicates else parts expr)), flag⟩ ∧
      Tree remaining ∧ parts remaining = [] := by
  obtain ⟨rewritten, changed, simplified, formed, same⟩ :=
    expression_rewriter_predicate predicates tree
  refine ⟨_, changed || !(parts rewritten).isEmpty, ?_, remaining_predicate_tree formed⟩
  rw [rewriterRewrite, simplified, ← same]
  simp [predicateRewrite, predicatePushdown, rewriterRewrite, expressionRewriter, parts]

theorem predicate_kept (child : RowPlan) (notConstant : ¬ IsValue expr) :
    predicateRewrite rowOps (.unary type [] (.unary .predicate [expr] child)) =
      ⟨.unary type [] (.unary .predicate [expr] child), false⟩ := by
  cases expr <;> first | rfl | exact absurd trivial notConstant

theorem pass_filtered (filtered : Filtered type filter predicates plan) :
    ∃ rewritten, rewritePass rowOps plan = some rewritten ∧
      Filtered type [] (if filter.isEmpty then predicates else filter) rewritten.result := by
  rcases filtered with ⟨rfl, rfl⟩ | ⟨expr, rfl, tree, rfl⟩
  · refine ⟨⟨.unary type [] (.tableGet () predicates), false⟩, ?_, .inl ⟨rfl, rfl⟩⟩
    cases type <;> rfl
  · obtain ⟨first, changed, simplified, formed, same⟩ :=
      expression_rewriter_predicate predicates tree
    have own : expressionRewriter rowOps
        (.unary type [] (.unary .predicate [expr] (.tableGet () predicates)) : RowPlan) =
          some ⟨.unary type [] (.unary .predicate [first] (.tableGet () predicates)), changed⟩ := by
      rw [expressionRewriter, simplified]
      simp [rewriteEach]
    rw [rewritePass, planDepth, planDepth, planDepth, rewriterRewrite, own, ← same]
    by_cases constant : IsValue first
    · cases formed with
      | constant =>
        refine ⟨⟨.unary type [] (.tableGet () predicates), true⟩, ?_, .inl ⟨?_, rfl⟩⟩
        · cases type <;> cases changed <;> rfl
        · simp
      | comparison | conjunction => exact constant.elim
    · obtain ⟨remaining, flag, pushed, stays, bare⟩ :=
        predicate_rewritten predicates formed
      refine ⟨⟨_, changed || flag⟩, ?_, .inr ⟨remaining, rfl, stays, bare⟩⟩
      simp [predicate_kept _ constant, predicatePushdown, pushed]

theorem optimize_filtered (passes : Nat) (filtered : Filtered type [] predicates plan) :
    ∃ last, optimize passes plan = some last ∧ Filtered type [] predicates last := by
  induction passes generalizing plan with
  | zero => exact ⟨plan, rfl, filtered⟩
  | succ passes ih =>
    obtain ⟨rewritten, pass, next⟩ := pass_filtered filtered
    obtain ⟨last, rest, settled⟩ := ih next
    exact ⟨last, by rw [optimize, pass]; exact rest, settled⟩

theorem scan_rows_bare (tree : Tree expr) (bare : parts expr = []) (rows : List Row) :
    scanRows [expr] rows = some rows := by
  induction rows with
  | nil => rfl
  | cons row rest ih =>
    rw [scanRows, ih, conjunctionValue, tree_without_parts row tree bare]
    rfl

variable (indexScan : List RowExpr → List Row → Option (List Row)) {target : Target}

theorem execute_filtered (statement : type ≠ .predicate)
    (unindexed : ∀ predicate ∈ predicates, usesIndex target predicate = false)
    (filtered : Filtered type [] predicates plan) (rows : List Row) :
    execute indexScan target rows plan = scanRows predicates rows := by
  have scan : execute indexScan target rows (.tableGet () predicates) =
      scanRows predicates rows := by
    rw [execute, if_neg]
    simpa using unindexed
  rcases filtered with ⟨rfl, -⟩ | ⟨expr, rfl, tree, bare⟩
  · cases type <;> first | exact scan | exact absurd rfl statement
  · have passed : execute indexScan target rows
        (.unary .predicate [expr] (.tableGet () predicates)) =
          scanRows predicates rows := by
      rw [execute, scan]
      cases scanRows predicates rows with
      | none => rfl
      | some found => exact scan_rows_bare tree bare found
    cases type <;> first | exact passed | exact absurd rfl statement

/-- However many passes are made, the scan is left with the comparisons of the filter. -/
theorem run_plan_filtered (statement : type ≠ .predicate)
    (unindexed : ∀ predicate ∈ filter, usesIndex target predicate = false)
    (filtered : Filtered type filter [] plan) (passes : Nat) (rows : List Row) :
    runPlan indexScan target passes plan rows =
      .ofScan (scanRows filter rows) := by
  obtain ⟨rewritten, pass, next⟩ := pass_filtered filtered
  have all : (if filter.isEmpty then [] else filter) = filter := by cases filter <;> rfl
  rw [all] at next
  obtain ⟨last, rest, settled⟩ := optimize_filtered passes next
  rw [runPlan, optimize, pass, bind_some, rest]
  simp only [execute_filtered indexScan statement unindexed settled]

end Plans

/-- Types that are compared as they are or after a cast of integers to floats. -/
def Comparable (left right : AttrType) : Prop :=
  left = right ∨ left = .ints ∧ right = .floats ∨ left = .floats ∧ right = .ints

/-- A column has no qualifier or the one that the statement writes for its table. -/
def Operand.Spelled (target : Target) : Operand → Prop
  | .attr name => name.relation = none ∨ name.relation = some target.written
  | .value _ => True

/-- What `DELETE` and `UPDATE` need of a condition whose columns exist. -/
def Planned (target : Target) (condition : Condition) : Prop :=
  condition.left.Spelled target ∧ condition.right.Spelled target ∧
    ∀ bound, bindCondition target.bindField condition = some bound →
      Comparable bound.left.valueType bound.right.valueType

/-- The condition is about a column, and not one for which the plan takes an index. -/
structure Scanned (target : Target) (condition : Condition) : Prop where
  column : (∃ name, condition.left = .attr name) ∨ ∃ name, condition.right = .attr name
  unindexed : ∀ bound, bindCondition target.bindField condition = some bound →
    usesIndex target bound.comparison = false

variable {target : Target}

section Names

variable {name : RelAttr} {unit : BoundCondition} {conditions : List Condition}

theorem bind_field_of_get {column : FieldMeta} (found : target.getTableAndField name = some column) :
    target.bindField name = some column := by
  obtain ⟨relation, attributeName⟩ := name
  cases relation with
  | none => exact found
  | some relation =>
    simp only [Target.getTableAndField, ite_none_right_eq_some] at found
    simp only [Target.bindField, found.1, target.names, if_true]
    exact found.2

theorem get_of_spelled (spelled : (Operand.attr name).Spelled target) :
    target.getTableAndField name = target.bindField name := by
  obtain ⟨relation, attributeName⟩ := name
  rcases spelled with rfl | rfl
  · rfl
  · simp [Target.getTableAndField, Target.bindField, target.names]

theorem get_of_unspelled (unspelled : ¬ (Operand.attr name).Spelled target) :
    target.getTableAndField name = none := by
  obtain ⟨relation, attributeName⟩ := name
  obtain ⟨qualified, other⟩ := not_or.mp unspelled
  cases relation with
  | none => exact absurd rfl qualified
  | some relation => exact if_neg fun same => other (congrArg some same)

theorem bind_operand_of_get {operand : Operand} {bound : BoundOperand}
    (found : bindOperand target.getTableAndField operand = some bound) :
    bindOperand target.bindField operand = some bound ∧ operand.Spelled target := by
  cases operand with
  | value literal => exact ⟨found, trivial⟩
  | attr name =>
    obtain ⟨column, get, rfl⟩ := map_eq_some_iff.mp found
    refine ⟨by rw [bindOperand, bind_field_of_get get]; rfl, ?_⟩
    by_contra unspelled
    rw [get_of_unspelled unspelled] at get
    cases get

theorem bind_operand_of_spelled {operand : Operand} (spelled : operand.Spelled target) :
    bindOperand target.getTableAndField operand = bindOperand target.bindField operand := by
  cases operand with
  | value literal => rfl
  | attr name => rw [bindOperand, bindOperand, get_of_spelled spelled]

variable {condition : Condition}

theorem bind_condition_of_get {bound : BoundCondition}
    (found : bindCondition target.getTableAndField condition = some bound) :
    bindCondition target.bindField condition = some bound ∧
      condition.left.Spelled target ∧ condition.right.Spelled target := by
  obtain ⟨left, foundLeft, found⟩ := bind_eq_some_iff.mp found
  obtain ⟨right, foundRight, found⟩ := bind_eq_some_iff.mp found
  obtain ⟨boundLeft, spelledLeft⟩ := bind_operand_of_get foundLeft
  obtain ⟨boundRight, spelledRight⟩ := bind_operand_of_get foundRight
  refine ⟨?_, spelledLeft, spelledRight⟩
  rw [bindCondition, boundLeft, boundRight]
  exact found

theorem bind_condition_of_spelled
    (left : condition.left.Spelled target) (right : condition.right.Spelled target) :
    bindCondition target.getTableAndField condition =
      bindCondition target.bindField condition := by
  rw [bindCondition, bindCondition, bind_operand_of_spelled left, bind_operand_of_spelled right]

theorem bound_column {find : RelAttr → Option FieldMeta} {condition : Condition}
    (bound : bindCondition find condition = some unit)
    (column : (∃ name, condition.left = .attr name) ∨ ∃ name, condition.right = .attr name) :
    ¬ (IsValue unit.left.expr ∧ IsValue unit.right.expr) := by
  obtain ⟨left, foundLeft, bound⟩ := bind_eq_some_iff.mp bound
  obtain ⟨right, foundRight, bound⟩ := bind_eq_some_iff.mp bound
  cases bound
  rcases column with ⟨name, attr⟩ | ⟨name, attr⟩
  · rw [attr] at foundLeft
    obtain ⟨field, -, rfl⟩ := map_eq_some_iff.mp foundLeft
    exact fun both => both.1
  · rw [attr] at foundRight
    obtain ⟨field, -, rfl⟩ := map_eq_some_iff.mp foundRight
    exact fun both => both.2

def boundOf (target : Target) (condition : Condition) : BoundCondition :=
  (bindCondition target.bindField condition).getD
    ⟨condition.comp, .value .null, .value .null⟩

theorem bind_all
    (bound : ∀ condition ∈ conditions, bindCondition target.bindField condition ≠ none) :
    ∀ condition ∈ conditions,
      bindCondition target.bindField condition = some (boundOf target condition) := by
  intro condition member
  obtain ⟨found, equal⟩ := ne_none_iff_exists'.mp (bound condition member)
  rw [boundOf, equal]
  rfl

end Names

section Filters

/-- A comparison that the rewriter moves to the scan as it is. -/
def Simple (target : Target) (expr : RowExpr) : Prop :=
  Tree expr ∧ parts expr = [expr] ∧ usesIndex target expr = false

theorem simple_parts {exprs : List RowExpr} (simple : ∀ expr ∈ exprs, Simple target expr) :
    exprs.flatMap parts = exprs := by
  induction exprs with
  | nil => rfl
  | cons expr rest ih =>
    rw [flatMap_cons, (simple expr (.head _)).2.1, singleton_append,
      ih fun other member => simple other (.tail _ member)]

theorem nest_and_tree {first : RowExpr} {rest : List RowExpr} (tree : Tree first)
    (trees : ∀ expr ∈ rest, Tree expr) :
    Tree (nestAnd first rest) ∧ parts (nestAnd first rest) = parts first ++ rest.flatMap parts := by
  induction rest generalizing first with
  | nil => exact ⟨tree, by simp [nestAnd]⟩
  | cons next rest ih =>
    obtain ⟨second, trees⟩ := forall_mem_cons.mp trees
    have both : Tree (.conjunction .and [first, next]) := .conjunction (by simp [tree, second])
    obtain ⟨formed, same⟩ := ih both trees
    refine ⟨formed, same.trans ?_⟩
    rw [parts_and]
    simp

theorem select_plan_filtered {first : RowExpr} {rest : List RowExpr}
    (simple : ∀ expr ∈ first :: rest, Simple target expr) :
    Filtered .projection (first :: rest) []
      (wherePlan .projection (some (nestAnd first rest))) := by
  obtain ⟨formed, same⟩ := nest_and_tree (simple first (.head _)).1
    fun expr member => (simple expr (.tail _ member)).1
  refine .inr ⟨_, rfl, formed, ?_⟩
  rw [same, ← flatMap_cons, simple_parts simple]

theorem change_plan_filtered {exprs : List RowExpr} (type : LogicalOperatorType)
    (simple : ∀ expr ∈ exprs, Simple target expr) :
    Filtered type exprs [] (wherePlan type (some (.conjunction .and exprs))) := by
  refine .inr ⟨_, rfl, .conjunction fun expr member => (simple expr member).1, ?_⟩
  rw [parts_and, simple_parts simple]

variable {unit : BoundCondition}

theorem simple_comparison (column : ¬ (IsValue unit.left.expr ∧ IsValue unit.right.expr))
    (unindexed : usesIndex target unit.comparison = false) : Simple target unit.comparison := by
  refine ⟨.comparison ?_ ?_ column, parts_comparison .., unindexed⟩
  · cases unit.left <;> trivial
  · cases unit.right <;> trivial

variable [Conversions]

theorem cast_operand_shape {operand : BoundOperand} {type : AttrType} {expr : RowExpr}
    (cast : castOperand operand type = some expr) :
    (∃ column, operand = .field column ∧ expr = .cast type (.field column)) ∨
      ∃ constant result, operand = .value constant ∧ expr = .value result := by
  cases operand with
  | field column =>
    cases cast
    exact .inl ⟨column, rfl, rfl⟩
  | value constant =>
    obtain ⟨result, -, rfl⟩ := map_eq_some_iff.mp cast
    exact .inr ⟨constant, result, rfl, rfl⟩

theorem simple_plan_unit {planned : RowExpr} (made : planUnit unit = some planned)
    (column : ¬ (IsValue unit.left.expr ∧ IsValue unit.right.expr))
    (unindexed : usesIndex target unit.comparison = false) : Simple target planned := by
  obtain ⟨comp, left, right⟩ := unit
  have sides (operand : BoundOperand) : IsOperand operand.expr := by cases operand <;> trivial
  simp only [planUnit] at made
  split at made
  · split at made
    · obtain ⟨expr, cast, rfl⟩ := map_eq_some_iff.mp made
      rcases cast_operand_shape cast with
        ⟨field, rfl, rfl⟩ | ⟨constant, result, rfl, rfl⟩
      · exact ⟨.comparison trivial (sides right) fun both => both.1, parts_comparison .., rfl⟩
      · refine ⟨.comparison trivial (sides right) column, parts_comparison .., ?_⟩
        cases right <;> exact unindexed
    · split at made
      · obtain ⟨expr, cast, rfl⟩ := map_eq_some_iff.mp made
        rcases cast_operand_shape cast with
          ⟨field, rfl, rfl⟩ | ⟨constant, result, rfl, rfl⟩
        · refine ⟨.comparison (sides left) trivial fun both => both.2, parts_comparison .., ?_⟩
          cases left <;> rfl
        · refine ⟨.comparison (sides left) trivial column, parts_comparison .., ?_⟩
          cases left <;> exact unindexed
      · cases made
  · cases made
    exact simple_comparison column unindexed

end Filters

section Values

variable {value : FieldValue}

def BoundOperand.read (row : Row) : BoundOperand → FieldValue
  | .field column => row.cells column
  | .value constant => constant

theorem read_fits (row : Row) (operand : BoundOperand) :
    operand.read row = .null ∨ (operand.read row).attrType = operand.valueType := by
  cases operand with
  | field column => exact row.fits column
  | value constant => exact .inr rfl

theorem null_or_ints (fits : value = .null ∨ value.attrType = .ints) :
    value = .null ∨ ∃ number, value = .scalar (.ints number) := by
  refine fits.imp_right fun typed => ?_
  cases value with
  | vectors => cases typed
  | scalar cell =>
    cases cell with
    | ints number => exact ⟨number, rfl⟩
    | null | chars | floats | booleans | dates => cases typed

theorem null_or_floats (fits : value = .null ∨ value.attrType = .floats) :
    value = .null ∨ ∃ bits, value = .scalar (.floats bits) := by
  refine fits.imp_right fun typed => ?_
  cases value with
  | vectors => cases typed
  | scalar cell =>
    cases cell with
    | floats bits => exact ⟨bits, rfl⟩
    | null | chars | ints | booleans | dates => cases typed

/-- What the implicit cast makes of an integer; a null stays null. -/
def FieldValue.toFloat : FieldValue → FieldValue
  | .scalar (.ints number) => .scalar (.floats (floatOfInt number))
  | value => value

variable [Conversions]

theorem expr_value (row : Row) (operand : BoundOperand) :
    getValue rowOps row operand.expr = some (operand.read row) := by
  cases operand <;> rfl

theorem comparison_value (row : Row) (condition : BoundCondition) :
    getValue rowOps row condition.comparison =
      ((condition.left.read row).compareValue condition.comp
        (condition.right.read row)).map rowOps.setBoolean := by
  rw [comparison, getValue, expr_value, expr_value]
  rfl

theorem cast_to_float (fits : value = .null ∨ value.attrType = .ints) :
    value.cast .floats = some value.toFloat := by
  obtain rfl | ⟨number, rfl⟩ := null_or_ints fits <;> rfl

theorem cast_operand_value {operand : BoundOperand} (ints : operand.valueType = .ints) :
    ∃ expr, castOperand operand .floats = some expr ∧
      ∀ row, getValue rowOps row expr = some (operand.read row).toFloat := by
  cases operand with
  | field column =>
    refine ⟨_, rfl, fun row => cast_to_float ?_⟩
    exact (row.fits column).imp_right fun typed => typed.trans ints
  | value constant =>
    refine ⟨.value constant.toFloat, ?_, fun _ => rfl⟩
    rw [castOperand, cast_to_float (.inr ints)]
    rfl

variable {left right : FieldValue}

theorem compare_cast_left (comp : CompOp) (leftFits : left = .null ∨ left.attrType = .ints)
    (rightFits : right = .null ∨ right.attrType = .floats) :
    left.toFloat.compareValue comp right = left.compareValue comp right := by
  obtain rfl | ⟨number, rfl⟩ := null_or_ints leftFits
  · rfl
  · obtain rfl | ⟨bits, rfl⟩ := null_or_floats rightFits <;>
      simp [FieldValue.compareValue, FieldValue.toFloat, FieldValue.null, FieldValue.compare,
        Cell.compare, Cell.getFloat]

theorem compare_cast_right (comp : CompOp) (leftFits : left = .null ∨ left.attrType = .floats)
    (rightFits : right = .null ∨ right.attrType = .ints) :
    left.compareValue comp right.toFloat = left.compareValue comp right := by
  obtain rfl | ⟨number, rfl⟩ := null_or_ints rightFits
  · rfl
  · obtain rfl | ⟨bits, rfl⟩ := null_or_floats leftFits <;>
      simp [FieldValue.compareValue, FieldValue.toFloat, FieldValue.null, FieldValue.compare,
        Cell.compare, Cell.getFloat]

theorem compare_same_type (comp : CompOp) {type : AttrType}
    (leftFits : left = .null ∨ left.attrType = type)
    (rightFits : right = .null ∨ right.attrType = type) :
    (left.compareValue comp right).isSome = true := by
  unfold FieldValue.compareValue
  split
  · rfl
  · split
    · rfl
    · split
      · rfl
      · rename_i present
        obtain ⟨leftThere, rightThere⟩ := not_or.mp present
        have same := (leftFits.resolve_left leftThere).trans
          (rightFits.resolve_left rightThere).symm
        rw [isSome_map]
        cases left with
        | vectors => cases right <;> rfl
        | scalar leftCell =>
          cases right with
          | vectors => cases leftCell <;> cases same
          | scalar rightCell =>
            cases leftCell <;> cases rightCell <;> first | rfl | cases same

theorem comparable_defined (comp : CompOp) {leftType rightType : AttrType}
    (comparable : Comparable leftType rightType)
    (leftFits : left = .null ∨ left.attrType = leftType)
    (rightFits : right = .null ∨ right.attrType = rightType) :
    (left.compareValue comp right).isSome = true := by
  rcases comparable with rfl | ⟨rfl, rfl⟩ | ⟨rfl, rfl⟩
  · exact compare_same_type comp leftFits rightFits
  · rw [← compare_cast_left comp leftFits rightFits]
    refine compare_same_type comp ?_ rightFits
    obtain rfl | ⟨number, rfl⟩ := null_or_ints leftFits
    · exact .inl rfl
    · exact .inr rfl
  · rw [← compare_cast_right comp leftFits rightFits]
    refine compare_same_type comp leftFits ?_
    obtain rfl | ⟨number, rfl⟩ := null_or_ints rightFits
    · exact .inl rfl
    · exact .inr rfl

theorem plan_unit_value {unit : BoundCondition}
    (comparable : Comparable unit.left.valueType unit.right.valueType) :
    ∃ planned, planUnit unit = some planned ∧
      ∀ row, getValue rowOps row planned =
        getValue rowOps row unit.comparison := by
  obtain ⟨comp, left, right⟩ := unit
  rcases comparable with same | ⟨ints, floats⟩ | ⟨floats, ints⟩
  · refine ⟨_, ?_, fun _ => rfl⟩
    rw [planUnit, if_neg (not_not.mpr same)]
    rfl
  · obtain ⟨expr, cast, value⟩ := cast_operand_value ints
    dsimp only at ints floats cast value
    refine ⟨.comparison comp expr right.expr, ?_, fun row => ?_⟩
    · simp [planUnit, ints, floats, implicitCastCost, castCost, noCast, cast]
    · have leftFits := read_fits row left
      have rightFits := read_fits row right
      rw [ints] at leftFits
      rw [floats] at rightFits
      rw [comparison_value, ← compare_cast_left comp leftFits rightFits, getValue,
        value, expr_value]
      rfl
  · obtain ⟨expr, cast, value⟩ := cast_operand_value ints
    dsimp only at ints floats cast value
    refine ⟨.comparison comp left.expr expr, ?_, fun row => ?_⟩
    · simp [planUnit, ints, floats, implicitCastCost, castCost, noCast, cast]
    · have leftFits := read_fits row left
      have rightFits := read_fits row right
      rw [floats] at leftFits
      rw [ints] at rightFits
      rw [comparison_value, ← compare_cast_right comp leftFits rightFits, getValue,
        value, expr_value]
      rfl

theorem plan_unit_none {unit : BoundCondition}
    (mixed : ¬ Comparable unit.left.valueType unit.right.valueType) :
    planUnit unit = none := by
  obtain ⟨different, notLeft, notRight⟩ : unit.left.valueType ≠ unit.right.valueType ∧
      ¬ (unit.left.valueType = .ints ∧ unit.right.valueType = .floats) ∧
      ¬ (unit.left.valueType = .floats ∧ unit.right.valueType = .ints) := by
    simpa [Comparable, not_or] using mixed
  have backwards : ¬ (unit.right.valueType = .ints ∧ unit.left.valueType = .floats) :=
    fun both => notRight both.symm
  simp [planUnit, different, different.symm, implicitCastCost, castCost, notLeft, backwards]

end Values

section Statements

variable [Conversions]

theorem scan_rows_of_truth {predicates : List RowExpr} {truth : Row → Bool}
    (values : ∀ row, conjunctionValue rowOps row .and predicates =
      some (truth row)) (rows : List Row) :
    scanRows predicates rows = some (rows.filter truth) := by
  induction rows with
  | nil => rfl
  | cons row rest ih =>
    rw [scanRows, values, ih, filter_cons]
    simp only [bind, bind_some]

theorem scan_rows_eq_nil_iff (predicates : List RowExpr) (rows : List Row) :
    scanRows predicates rows = some [] ↔
      ∀ row ∈ rows, conjunctionValue rowOps row .and predicates = some false := by
  induction rows with
  | nil => simp [scanRows]
  | cons row rest ih =>
    rw [scanRows, forall_mem_cons, ← ih]
    cases conjunctionValue rowOps row .and predicates with
    | none => simp
    | some flag =>
      cases scanned : scanRows predicates rest with
      | none => simp
      | some others => cases flag <;> simp

variable (indexScan : List RowExpr → List Row → Option (List Row))
  (passes : LogicalOperatorType → Nat)

/-- The three statements touch the same rows; an `UPDATE` is one whose assignment is accepted. -/
def SameRows (target : Target) (conditions : List Condition) (rows : List Row) : Prop :=
  ∃ touched,
    (selectOutcome indexScan target (passes .projection) conditions rows).touched =
      some touched ∧
    (deleteOutcome indexScan target (passes .delete) conditions rows).touched =
      some touched ∧
    ∀ attributeName literal, acceptsSet target attributeName literal = true →
      (updateOutcome indexScan target attributeName literal (passes .update)
        conditions rows).touched = some touched

variable {condition : Condition} {conditions : List Condition} {indexScan passes}

theorem same_rows_of_touched {rows touched : List Row}
    (select : (selectOutcome indexScan target (passes .projection) conditions
      rows).touched = some touched)
    (change : ∀ type, type = .delete ∨ type = .update →
      (changeOutcome indexScan type target (passes type) conditions rows).touched =
        some touched) :
    SameRows indexScan passes target conditions rows := by
  refine ⟨touched, select, change .delete (.inl rfl), fun attributeName literal accepted => ?_⟩
  rw [updateOutcome, if_pos accepted, change .update (.inr rfl)]

theorem change_refused (type : LogicalOperatorType) (count : Nat) (member : condition ∈ conditions)
    (rows : List Row)
    (fails : ∀ bound, bindCondition target.getTableAndField condition = some bound →
      planUnit bound = none) :
    changeOutcome indexScan type target count conditions rows = .refused := by
  have inside := mem_reverse.mpr member
  rw [changeOutcome]
  cases units : conditions.reverse.mapM (bindCondition target.getTableAndField) with
  | none => rfl
  | some found =>
    cases bound : bindCondition target.getTableAndField condition with
    | none =>
      rw [map_m_of_none inside bound] at units
      cases units
    | some unit =>
      have unplanned := map_m_of_none (mem_of_map_m units inside bound) (fails unit bound)
      simp only [unplanned]

/-- `SELECT` scans with the comparisons of its conditions. -/
theorem select_outcome_eq (count : Nat) (binds : ∀ condition ∈ conditions,
      bindCondition target.bindField condition = some (boundOf target condition))
    (simple : ∀ condition ∈ conditions, Simple target (boundOf target condition).comparison)
    (rows : List Row) :
    selectOutcome indexScan target count conditions rows =
      .ofScan (scanRows
        (conditions.map fun condition => (boundOf target condition).comparison) rows) := by
  rw [selectOutcome, map_m_of_some binds]
  cases conditions with
  | nil =>
    exact run_plan_filtered indexScan (by decide) (by simp) (.inl ⟨rfl, rfl⟩) count rows
  | cons first rest =>
    have all : ∀ expr ∈ (first :: rest).map fun condition =>
        (boundOf target condition).comparison, Simple target expr := by
      simpa using simple
    have filtered := select_plan_filtered all
    simp only [List.map_cons, List.map_map] at filtered all ⊢
    exact run_plan_filtered indexScan (by decide)
      (fun expr member => (all expr member).2.2) filtered count rows

/-- `DELETE` and `UPDATE` scan with the comparisons that were planned. -/
theorem change_outcome_eq {type : LogicalOperatorType} (statement : type ≠ .predicate) (count : Nat)
    {expr : Condition → RowExpr}
    (binds : ∀ condition ∈ conditions,
      bindCondition target.getTableAndField condition = some (boundOf target condition))
    (plans : ∀ condition ∈ conditions,
      planUnit (boundOf target condition) = some (expr condition))
    (simple : ∀ condition ∈ conditions, Simple target (expr condition)) (rows : List Row) :
    changeOutcome indexScan type target count conditions rows =
      .ofScan (scanRows (conditions.reverse.map expr) rows) := by
  have bound := map_m_of_some fun condition member =>
    binds condition (mem_reverse.mp member)
  have planned : (conditions.reverse.map (boundOf target)).mapM planUnit =
      some (conditions.reverse.map expr) := by
    rw [mapM_map]
    exact map_m_of_some fun condition member => plans condition (mem_reverse.mp member)
  have all : ∀ made ∈ conditions.reverse.map expr, Simple target made := by
    simpa using simple
  rw [changeOutcome, bound]
  simp only [planned]
  split
  · rename_i shape
    cases shape
  · rename_i shape
    rw [some.inj shape]
    exact run_plan_filtered indexScan statement (by simp) (.inl ⟨rfl, rfl⟩) count rows
  · rename_i comparisons _ shape
    rw [← some.inj shape]
    exact run_plan_filtered indexScan statement
      (fun made member => (all made member).2.2) (change_plan_filtered type all) count rows

section

variable (bound : ∀ condition ∈ conditions, bindCondition target.bindField condition ≠ none)
  (scanned : ∀ condition ∈ conditions, Scanned target condition)
include bound scanned

theorem same_rows_of_planned (planned : ∀ condition ∈ conditions, Planned target condition)
    (rows : List Row) :
    SameRows indexScan passes target conditions rows := by
  have binds := bind_all bound
  have comparable : ∀ condition ∈ conditions,
      Comparable (boundOf target condition).left.valueType
        (boundOf target condition).right.valueType :=
    fun condition member => (planned condition member).2.2 _ (binds condition member)
  have columns : ∀ condition ∈ conditions, ¬ (IsValue (boundOf target condition).left.expr ∧
      IsValue (boundOf target condition).right.expr) :=
    fun condition member => bound_column (binds condition member) (scanned condition member).column
  have unindexed : ∀ condition ∈ conditions,
      usesIndex target (boundOf target condition).comparison = false :=
    fun condition member => (scanned condition member).unindexed _ (binds condition member)
  let truth (row : Row) (condition : Condition) : Bool :=
    (((boundOf target condition).left.read row).compareValue
      (boundOf target condition).comp ((boundOf target condition).right.read row)).getD false
  have compared : ∀ row, ∀ condition ∈ conditions,
      getValue rowOps row (boundOf target condition).comparison =
        some (rowOps.setBoolean (truth row condition)) := by
    intro row condition member
    have defined := comparable_defined (boundOf target condition).comp
      (comparable condition member) (read_fits row _) (read_fits row _)
    obtain ⟨flag, value⟩ := isSome_iff_exists.mp defined
    simp only [comparison_value, truth, value, map_some, getD_some]
  let expr (condition : Condition) : RowExpr :=
    (planUnit (boundOf target condition)).getD (boundOf target condition).comparison
  have plans : ∀ condition ∈ conditions,
      planUnit (boundOf target condition) = some (expr condition) ∧
        ∀ row, getValue rowOps row (expr condition) =
          some (rowOps.setBoolean (truth row condition)) := by
    intro condition member
    obtain ⟨made, plan, value⟩ := plan_unit_value (comparable condition member)
    simp only [expr, plan, getD_some, true_and]
    exact fun row => (value row).trans (compared row condition member)
  have spelled : ∀ condition ∈ conditions,
      bindCondition target.getTableAndField condition = some (boundOf target condition) := by
    intro condition member
    obtain ⟨left, right, -⟩ := planned condition member
    rw [bind_condition_of_spelled left right, binds condition member]
  -- both scans keep the rows that meet every condition, whatever the order of the list
  have select := scan_rows_of_truth
    (fun row => conjunction_value_all (compared row)) rows
  have change := scan_rows_of_truth
    (fun row => @conjunction_value_all _ _ row conditions.reverse _ _
      fun condition member => (plans condition (mem_reverse.mp member)).2 row) rows
  simp only [all_reverse] at change
  refine @same_rows_of_touched target _ indexScan passes conditions rows
    (rows.filter fun row => conditions.all (truth row)) ?_ fun type kind => ?_
  · rw [select_outcome_eq _ binds fun condition member =>
      simple_comparison (columns condition member) (unindexed condition member), select]
    rfl
  · have statement : type ≠ .predicate := by rcases kind with rfl | rfl <;> decide
    rw [change_outcome_eq statement _ spelled
      (fun condition member => (plans condition member).1)
      (fun condition member => simple_plan_unit (plans condition member).1
        (columns condition member) (unindexed condition member)), change]
    rfl

theorem same_rows_of_unplanned (member : condition ∈ conditions)
    (unplanned : ¬ Planned target condition) (rows : List Row) :
    SameRows indexScan passes target conditions rows ↔
      ∀ row ∈ rows, conjunctionValue rowOps row .and
        ((conditions.filterMap (bindCondition target.bindField)).map
          comparison) = some false := by
  have binds := bind_all bound
  have refused : ∀ type, changeOutcome indexScan type target (passes type) conditions
      rows = .refused := by
    refine fun type => change_refused type _ member rows fun unit found =>
      plan_unit_none ?_
    obtain ⟨same, left, right⟩ := bind_condition_of_get found
    intro comparable
    refine unplanned ⟨left, right, fun other bindsOther => ?_⟩
    rw [same] at bindsOther
    cases bindsOther
    exact comparable
  have comparisons : (conditions.filterMap (bindCondition target.bindField)).map comparison =
      conditions.map fun condition => (boundOf target condition).comparison := by
    rw [filterMap_congr binds, ← comp_def some, filterMap_eq_map, List.map_map]
    rfl
  have sameRows : SameRows indexScan passes target conditions rows ↔
      (selectOutcome indexScan target (passes .projection) conditions rows).touched =
        some [] := by
    constructor
    · rintro ⟨touched, select, delete, -⟩
      rw [deleteOutcome, refused] at delete
      cases delete
      exact select
    · exact fun select => same_rows_of_touched select fun type _ => by
        rw [refused]
        rfl
  rw [sameRows, comparisons, ← scan_rows_eq_nil_iff,
    select_outcome_eq _ binds fun condition member => simple_comparison
      (bound_column (binds condition member) (scanned condition member).column)
      ((scanned condition member).unindexed _ (binds condition member))]
  cases scanRows
      (conditions.map fun condition => (boundOf target condition).comparison) rows <;>
    simp [Outcome.ofScan, Outcome.touched]

end

variable (indexScan passes)

end Statements

/-- `stol`, for a text that starts with a digit. -/
def leadingNumber (text : List UInt8) : Nat :=
  (text.takeWhile fun byte => 48 ≤ byte && byte ≤ 57).foldl
    (fun number byte => 10 * number + (byte.toNat - 48)) 0

instance sampleConversions : Conversions where
  stol text := BitVec.ofNat 32 (leadingNumber text)
  stof _ := 0
  parseDate _ := none
  calcValue _ _ _ := none
  calcNegative _ := none

def numberTable : Target where
  table := ⟨1, [116], [⟨[97], .ints, 0, 4, true, true, 0⟩], [], [], .rowFormat⟩
  written := [116]
  names := rfl

def numberRow (number : BitVec 32) : Row where
  cells column := if column.attrType = .ints then .scalar (.ints number) else .null
  fits column := by
    by_cases ints : column.attrType = .ints
    · exact .inr (by rw [if_pos ints, ints]; rfl)
    · exact .inl (if_neg ints)

/-- The text `a > 1 AND 2.5 >= a`. -/
def aroundTwo : List Condition :=
  [⟨.greatThan, .attr ⟨none, [97]⟩, .value (.number 1)⟩,
    ⟨.greatEqual, .value (.float 0x40200000), .attr ⟨none, [97]⟩⟩]

def dateColumn : FieldMeta := ⟨[100], .dates, 0, 4, true, true, 0⟩

def dateTable : Target where
  table := ⟨1, [116], [dateColumn], [], [], .rowFormat⟩
  written := [116]
  names := rfl

def juneRow : Row where
  cells column := if column.attrType = .dates then .scalar (.dates 20230601) else .null
  fits column := by
    by_cases dates : column.attrType = .dates
    · exact .inr (by rw [if_pos dates, dates]; rfl)
    · exact .inl (if_neg dates)

def afterNewYear : List Condition :=
  [⟨.greatThan, .attr ⟨none, [100]⟩,
    .value (.text [50, 48, 50, 52, 45, 48, 49, 45, 48, 49])⟩]

/-- `a > 1 AND 1 = 2`: for `SELECT` the first comparison stands for the conjunction, for `DELETE`,
which has them the other way round, the false constant. -/
theorem false_constant_differs :
    ¬ SameRows (fun _ _ => none) (fun _ => 2) numberTable
      [⟨.greatThan, .attr ⟨none, [97]⟩, .value (.number 1)⟩,
        ⟨.equalTo, .value (.number 1), .value (.number 2)⟩] [numberRow 5] := by
  rintro ⟨touched, select, delete, -⟩
  have returned := congrArg (Option.map length) select
  have removed := congrArg (Option.map length) delete
  rw [show (some touched).map length = some 1 from returned.symm.trans (by decide)] at removed
  exact absurd removed (by decide)

end CsuDbms.WhereModel

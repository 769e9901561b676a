import CsuDbms.LogicalPlanModel
import CsuDbms.TransitionSystem

/-!
# Where the optimizer puts the conditions of a statement

A pass of the rewriter selects the same rows as before if every simplification
in it keeps the truth of the condition it rewrites and no comparison is pushed
onto a scan that already holds predicates. The second is a condition because
`set_predicates` replaces the list of the scan.
-/

namespace CsuDbms.LogicalPlanModel

open TransitionSystem List Option

variable {Value Field AttrType Tuple Table : Type} (ops : ValueOps Value Field AttrType Tuple)

theorem passes_constant (tuple : Tuple) (constant : Value) :
    passes ops tuple (.value constant : Expr Value Field AttrType) = ops.getBoolean constant := by
  simp [passes, getValue]

theorem conjunction_value_passes (tuple : Tuple) (children : List (Expr Value Field AttrType)) :
    (conjunctionValue ops tuple .and children).getD false = children.all (passes ops tuple) := by
  induction children with
  | nil => simp [conjunctionValue]
  | cons child rest ih =>
    rw [all_cons, ← ih]
    cases evaluated : getValue ops tuple child with
    | none => simp [conjunctionValue, passes, evaluated]
    | some result =>
      cases truth : ops.getBoolean result <;>
        simp [conjunctionValue, passes, evaluated, truth]

theorem passes_and (tuple : Tuple) (children : List (Expr Value Field AttrType)) :
    passes ops tuple (.conjunction .and children) = children.all (passes ops tuple) := by
  rw [← conjunction_value_passes]
  cases children with
  | nil => simp [passes, getValue, conjunctionValue, ops.get_set_boolean]
  | cons child rest =>
    simp only [passes, getValue, isEmpty_cons, Bool.false_eq_true, if_false]
    cases conjunctionValue ops tuple .and (child :: rest) with
    | none => rfl
    | some result => simp [ops.get_set_boolean]

mutual

theorem pushdown_splits (tuple : Tuple) (expr : Expr Value Field AttrType) :
    passes ops tuple expr =
      ((exprsCanPushdown expr).1.toList.all (passes ops tuple) &&
        (exprsCanPushdown expr).2.all (passes ops tuple)) := by
  cases expr with
  | conjunction type children =>
    cases type with
    | and =>
      rw [passes_and, children_pushdown_splits tuple children]
      simp [exprsCanPushdown, passes_and]
    | or => simp [exprsCanPushdown]
  | comparison comp left right | field name | value constant | cast type child
  | arithmetic type left right | negative child => simp [exprsCanPushdown]

theorem children_pushdown_splits (tuple : Tuple) (children : List (Expr Value Field AttrType)) :
    children.all (passes ops tuple) =
      ((childrenCanPushdown children).1.all (passes ops tuple) &&
        (childrenCanPushdown children).2.all (passes ops tuple)) := by
  cases children with
  | nil => simp [childrenCanPushdown]
  | cons child rest =>
    rw [all_cons, pushdown_splits tuple child, children_pushdown_splits tuple rest]
    simp only [childrenCanPushdown, all_append]
    ac_rfl

end

theorem passes_remaining (tuple : Tuple) (remaining : Option (Expr Value Field AttrType)) :
    passes ops tuple (remainingPredicate ops remaining) =
      remaining.toList.all (passes ops tuple) := by
  unfold remainingPredicate
  split
  · simp [passes_constant, ops.get_set_boolean]
  · simp [passes, getValue, ops.get_set_boolean]
  · simp

section Rules

variable (scan : Table → List Tuple) (joinTuples : Tuple → Tuple → Tuple)

theorem selected_unary_congr (type : LogicalOperatorType)
    (expressions : List (Expr Value Field AttrType))
    {child replacement : Plan Value Field AttrType Table}
    (same : selected ops scan joinTuples replacement = selected ops scan joinTuples child) :
    selected ops scan joinTuples (.unary type expressions replacement) =
      selected ops scan joinTuples (.unary type expressions child) := by
  cases type <;> simp [selected, same]

theorem selected_unary_empty (type : LogicalOperatorType)
    (expressions : List (Expr Value Field AttrType))
    {child : Plan Value Field AttrType Table}
    (empty : selected ops scan joinTuples child = []) :
    selected ops scan joinTuples (.unary type expressions child) = [] := by
  cases type <;> simp [selected, empty]

theorem selected_predicate_rewrite (plan : Plan Value Field AttrType Table) :
    selected ops scan joinTuples (predicateRewrite ops plan).result =
      selected ops scan joinTuples plan := by
  unfold predicateRewrite
  split
  · rename_i type expressions constant grandChild
    split
    · rename_i holds
      apply selected_unary_congr
      simp [selected, passes_constant, holds]
    · rename_i fails
      rw [selected_unary_empty ops scan joinTuples type expressions
        (by simp [selected, passes_constant, fails])]
      rfl
  · rename_i type expressions constant
    rw [selected_unary_empty ops scan joinTuples type expressions rfl]
    rfl
  · rfl

/-- Where comparisons are about to be pushed, the scan holds no predicates yet. -/
def BareScan : Plan Value Field AttrType Table → Prop
  | .unary .predicate [expr] (.tableGet _ predicates) =>
    (exprsCanPushdown expr).2 = [] ∨ predicates = []
  | _ => True

theorem selected_pushdown (plan : Plan Value Field AttrType Table) (bare : BareScan plan) :
    selected ops scan joinTuples (predicatePushdown ops plan).result =
      selected ops scan joinTuples plan := by
  unfold predicatePushdown
  split
  · rename_i expr table predicates
    simp only [selected, List.all_cons, List.all_nil, Bool.and_true, List.filter_filter]
    apply List.filter_congr
    intro tuple _
    rw [passes_remaining, pushdown_splits ops tuple expr]
    rcases bare with nothing | unfiltered
    · simp [nothing]
    · cases pushed : (exprsCanPushdown expr).2 with
      | nil => simp [unfiltered]
      | cons comparison rest => simp [unfiltered]
  · rfl

def predicateConditions : Plan Value Field AttrType Table → List (Expr Value Field AttrType)
  | .tableGet _ _ => []
  | .join left right => predicateConditions left ++ predicateConditions right
  | .unary type expressions child =>
    (if type = .predicate then expressions else []) ++ predicateConditions child
  | .childless _ _ => []

/-- `rewrite_expression` keeps the truth of the condition on every row. -/
def KeepsTruth (expr : Expr Value Field AttrType) : Prop :=
  ∀ ruled, rewriteExpression ops (exprDepth expr) expr = some ruled →
    ∀ tuple, passes ops tuple ruled.result = passes ops tuple expr

theorem rewrite_each_passes {expressions : List (Expr Value Field AttrType)}
    {own : Rewritten (List (Expr Value Field AttrType))}
    (rewritten : rewriteEach (fun expr => rewriteExpression ops (exprDepth expr) expr)
      expressions = some own)
    (truthful : ∀ expr ∈ expressions, KeepsTruth ops expr) (tuple : Tuple) :
    own.result.all (passes ops tuple) = expressions.all (passes ops tuple) := by
  induction expressions generalizing own with
  | nil =>
    cases rewritten
    rfl
  | cons expr rest ih =>
    obtain ⟨first, firstRewritten, others⟩ := bind_eq_some_iff.mp rewritten
    obtain ⟨remaining, restRewritten, done⟩ := bind_eq_some_iff.mp others
    cases done
    have front := truthful expr (mem_cons_self ..) first firstRewritten tuple
    have back := ih restRewritten fun other member =>
      truthful other (mem_cons_of_mem _ member)
    simp only [all_cons, front, back]

theorem selected_expression_rewriter {plan : Plan Value Field AttrType Table}
    {simplified : Rewritten (Plan Value Field AttrType Table)}
    (rewritten : expressionRewriter ops plan = some simplified)
    (truthful : ∀ expr ∈ predicateConditions plan, KeepsTruth ops expr) :
    selected ops scan joinTuples simplified.result = selected ops scan joinTuples plan := by
  induction plan generalizing simplified with
  | tableGet table predicates =>
    cases rewritten
    rfl
  | join left right leftKeeps rightKeeps =>
    obtain ⟨leftInner, leftRewritten, rest⟩ := bind_eq_some_iff.mp rewritten
    obtain ⟨rightInner, rightRewritten, done⟩ := bind_eq_some_iff.mp rest
    cases done
    have leftSame := leftKeeps leftRewritten fun expr member =>
      truthful expr (mem_append_left _ member)
    have rightSame := rightKeeps rightRewritten fun expr member =>
      truthful expr (mem_append_right _ member)
    simp only [selected, leftSame, rightSame]
  | unary type expressions child childKeeps =>
    obtain ⟨own, ownRewritten, rest⟩ := bind_eq_some_iff.mp rewritten
    obtain ⟨inner, childRewritten, done⟩ := bind_eq_some_iff.mp rest
    cases done
    have childSame := childKeeps childRewritten fun expr member =>
      truthful expr (mem_append_right _ member)
    by_cases filters : type = .predicate
    · subst filters
      have ownSame := rewrite_each_passes ops ownRewritten fun expr member =>
        truthful expr (mem_append_left _ (by simpa using member))
      simp only [selected, childSame, ownSame]
    · rw [selected_unary_congr ops scan joinTuples type own.result childSame]
      cases type <;> simp_all [selected]
  | childless type expressions =>
    obtain ⟨own, _, done⟩ := bind_eq_some_iff.mp rewritten
    cases done
    rfl

/-- The nodes a pass visits: for each the plan there before the rules, and the plan
that the pushdown rule is then applied to. -/
def rewriteSites : Nat → Plan Value Field AttrType Table →
    List (Plan Value Field AttrType Table × Plan Value Field AttrType Table)
  | 0, _ => []
  | fuel + 1, plan =>
    match expressionRewriter ops plan with
    | none => []
    | some simplified =>
      let spliced := predicateRewrite ops simplified.result
      (plan, spliced.result) ::
        match (predicatePushdown ops spliced.result).result with
        | .unary _ _ child => rewriteSites fuel child
        | .join left right => rewriteSites fuel left ++ rewriteSites fuel right
        | _ => []

/-- Every simplification of a condition during the pass keeps its truth. -/
def SimplifiesTruthfully (plan : Plan Value Field AttrType Table) : Prop :=
  ∀ site ∈ rewriteSites ops (planDepth plan) plan,
    ∀ expr ∈ predicateConditions site.1, KeepsTruth ops expr

def PushesOntoBareScans (plan : Plan Value Field AttrType Table) : Prop :=
  ∀ site ∈ rewriteSites ops (planDepth plan) plan, BareScan site.2

def simplifications (plan : Plan Value Field AttrType Table) :
    List (Expr Value Field AttrType × Expr Value Field AttrType) :=
  (rewriteSites ops (planDepth plan) plan).flatMap fun site =>
    (predicateConditions site.1).filterMap fun expr =>
      (rewriteExpression ops (exprDepth expr) expr).map fun ruled => (expr, ruled.result)

theorem simplifies_truthfully_iff (plan : Plan Value Field AttrType Table) :
    SimplifiesTruthfully ops plan ↔
      ∀ pair ∈ simplifications ops plan, ∀ tuple,
        passes ops tuple pair.2 = passes ops tuple pair.1 := by
  simp only [SimplifiesTruthfully, KeepsTruth, simplifications, mem_flatMap,
    mem_filterMap, map_eq_some_iff]
  constructor
  · rintro truthful pair ⟨site, visited, expr, held, ruled, rewritten, rfl⟩
    exact truthful site visited expr held ruled rewritten
  · intro truthful site visited expr held ruled rewritten
    exact truthful (expr, ruled.result) ⟨site, visited, expr, held, ruled, rewritten, rfl⟩

theorem selected_rewriter (fuel : Nat) {plan : Plan Value Field AttrType Table}
    {rewritten : Rewritten (Plan Value Field AttrType Table)}
    (passed : rewriterRewrite ops fuel plan = some rewritten)
    (truthful : ∀ site ∈ rewriteSites ops fuel plan,
      ∀ expr ∈ predicateConditions site.1, KeepsTruth ops expr)
    (bare : ∀ site ∈ rewriteSites ops fuel plan, BareScan site.2) :
    selected ops scan joinTuples rewritten.result = selected ops scan joinTuples plan := by
  induction fuel generalizing plan rewritten with
  | zero =>
    cases passed
    rfl
  | succ fuel ih =>
    obtain ⟨simplified, simplifies, rest⟩ := bind_eq_some_iff.mp passed
    simp only [rewriteSites, simplifies, forall_mem_cons] at truthful bare
    have nodeSame : selected ops scan joinTuples (predicatePushdown ops
        (predicateRewrite ops simplified.result).result).result =
        selected ops scan joinTuples plan := by
      rw [selected_pushdown ops scan joinTuples _ bare.1,
        selected_predicate_rewrite ops scan joinTuples,
        selected_expression_rewriter ops scan joinTuples simplifies truthful.1]
    rw [← nodeSame]
    simp only at rest
    -- the rules are done at the node; what remains is the recursion into its children
    generalize (predicatePushdown ops (predicateRewrite ops simplified.result).result).result =
      node at rest truthful bare
    cases node with
    | tableGet table predicates =>
      cases rest
      rfl
    | childless type expressions =>
      cases rest
      rfl
    | unary type expressions child =>
      obtain ⟨inner, innerPassed, done⟩ := bind_eq_some_iff.mp rest
      cases done
      apply selected_unary_congr
      exact ih innerPassed truthful.2 bare.2
    | join left right =>
      obtain ⟨leftInner, leftPassed, others⟩ := bind_eq_some_iff.mp rest
      obtain ⟨rightInner, rightPassed, done⟩ := bind_eq_some_iff.mp others
      cases done
      simp only [forall_mem_append] at truthful bare
      have leftSame := ih leftPassed truthful.2.1 bare.2.1
      have rightSame := ih rightPassed truthful.2.2 bare.2.2
      simp only [selected, leftSame, rightSame]

def passStep (plan : Plan Value Field AttrType Table) (_ : Unit) :
    Option (Plan Value Field AttrType Table) :=
  (rewritePass ops plan).map Rewritten.result

theorem bare_passes_keep_selected {first last : Plan Value Field AttrType Table}
    (passes : Reaches (passStep ops)
      (fun plan _ => SimplifiesTruthfully ops plan ∧ PushesOntoBareScans ops plan) first last) :
    selected ops scan joinTuples last = selected ops scan joinTuples first := by
  apply reaches_invariant
    (fun plan => selected ops scan joinTuples plan = selected ops scan joinTuples first) _ rfl passes
  intro plan _ next same met taken
  obtain ⟨rewritten, passed, rfl⟩ := map_eq_some_iff.mp taken
  rw [selected_rewriter ops scan joinTuples (planDepth plan) passed met.1 met.2, same]

end Rules

inductive SampleCell where
  | int (number : Int)
  | boolean (flag : Bool)
  deriving DecidableEq, Repr

inductive Column where
  | a
  | b
  deriving DecidableEq, Repr

def SampleCell.number : SampleCell → Int
  | .int number => number
  | .boolean flag => if flag then 1 else 0

def compareNumbers : CompOp → Int → Int → Bool
  | .equalTo, left, right => left = right
  | .lessEqual, left, right => left ≤ right
  | .notEqual, left, right => left ≠ right
  | .lessThan, left, right => left < right
  | .greatEqual, left, right => left ≥ right
  | .greatThan, left, right => left > right
  | .isNull, _, _ => false
  | .isNotNull, _, _ => true

def calcNumbers : ArithmeticType → Int → Int → Option Int
  | .add, left, right => some (left + right)
  | .sub, left, right => some (left - right)
  | .mul, left, right => some (left * right)
  | .div, left, right => if right = 0 then none else some (left / right)

def cellOps : ValueOps SampleCell Column Unit (Int × Int) where
  getBoolean cell := decide (cell.number ≠ 0)
  isBoolean cell := match cell with
    | .int _ => false
    | .boolean _ => true
  setBoolean := .boolean
  get_set_boolean := by decide
  compareValue comp left right := some (compareNumbers comp left.number right.number)
  calcValue type left right := (calcNumbers type left.number right.number).map .int
  calcNegative cell := some (.int (-cell.number))
  castTo _ cell := some cell
  findCell row column := match column with
    | .a => some (.int row.1)
    | .b => some (.int row.2)

abbrev CellExpr := Expr SampleCell Column Unit

def aGreaterOne : CellExpr := .comparison .greatThan (.field .a) (.value (.int 1))

def bGreaterTwo : CellExpr := .comparison .greatThan (.field .b) (.value (.int 2))

def selectPlan (condition : CellExpr) (predicates : List CellExpr) :
    Plan SampleCell Column Unit Unit :=
  .unary .projection [.field .a] (.unary .predicate [condition] (.tableGet () predicates))

def scanPlan (predicates : List CellExpr) : Plan SampleCell Column Unit Unit :=
  .unary .projection [.field .a] (.tableGet () predicates)

/-- `1 = 1 + 1`: the sum is folded in one round and the comparison in the next. -/
def oneIsTwo : CellExpr :=
  .comparison .equalTo (.value (.int 1)) (.arithmetic .add (.value (.int 1)) (.value (.int 1)))

def lateComparison : CellExpr :=
  .conjunction .and [aGreaterOne, .conjunction .or [bGreaterTwo, oneIsTwo]]

def leftOver : CellExpr :=
  .conjunction .and [.conjunction .or [bGreaterTwo, .value (.boolean false)]]

theorem first_pass_truthful :
    SimplifiesTruthfully cellOps (selectPlan lateComparison []) := by
  rw [simplifies_truthfully_iff]
  have pairs : simplifications cellOps (selectPlan lateComparison []) =
      [(lateComparison, .conjunction .and [aGreaterOne, .conjunction .or
          [bGreaterTwo, .comparison .equalTo (.value (.int 1)) (.value (.int 2))]]),
        (.conjunction .and [aGreaterOne, .conjunction .or
          [bGreaterTwo, .comparison .equalTo (.value (.int 1)) (.value (.int 2))]],
          .conjunction .and [aGreaterOne, .conjunction .or
            [bGreaterTwo, .value (.boolean false)]])] := rfl
  rw [pairs]
  simp only [forall_mem_cons]
  refine ⟨fun tuple => rfl, fun tuple => rfl, by simp⟩

theorem passes_or_false (tuple : Int × Int) :
    passes cellOps tuple (.conjunction .or [bGreaterTwo, .value (.boolean false)]) =
      passes cellOps tuple bGreaterTwo := by
  by_cases large : 2 < tuple.2 <;>
    simp [passes, getValue, conjunctionValue, bGreaterTwo, cellOps, compareNumbers, SampleCell.number,
      large]

theorem second_pass_truthful :
    SimplifiesTruthfully cellOps (selectPlan leftOver [aGreaterOne]) := by
  rw [simplifies_truthfully_iff]
  have pairs : simplifications cellOps (selectPlan leftOver [aGreaterOne]) =
      [(leftOver, .conjunction .or [bGreaterTwo, .value (.boolean false)]),
        (.conjunction .or [bGreaterTwo, .value (.boolean false)], bGreaterTwo)] := rfl
  rw [pairs]
  simp only [forall_mem_cons]
  refine ⟨fun tuple => ?_, fun tuple => (passes_or_false tuple).symm, by simp⟩
  rw [leftOver, passes_and]
  simp

theorem third_pass_truthful :
    SimplifiesTruthfully cellOps (selectPlan (.value (.boolean true)) [bGreaterTwo]) := by
  rw [simplifies_truthfully_iff]
  have pairs : simplifications cellOps (selectPlan (.value (.boolean true)) [bGreaterTwo]) =
      [(.value (.boolean true), .value (.boolean true))] := rfl
  rw [pairs]
  simp

/-- `a > 1` reaches the scan in the first pass and is replaced there by `b > 2` in the
second one, so that the row (0, 3) is selected. The next pass changes nothing. -/
theorem later_push_replaces_predicates :
    ∃ last, Reaches (passStep cellOps) (fun plan _ => SimplifiesTruthfully cellOps plan)
        (selectPlan lateComparison []) last ∧
      rewritePass cellOps last = some ⟨last, false⟩ ∧
      selected cellOps (fun _ => [(0, 3)]) (fun left _ => left)
        (selectPlan lateComparison []) = [] ∧
      selected cellOps (fun _ => [(0, 3)]) (fun left _ => left) last = [(0, 3)] := by
  have first : passStep cellOps (selectPlan lateComparison []) () =
      some (selectPlan leftOver [aGreaterOne]) := rfl
  have second : passStep cellOps (selectPlan leftOver [aGreaterOne]) () =
      some (selectPlan (.value (.boolean true)) [bGreaterTwo]) := rfl
  have third : passStep cellOps (selectPlan (.value (.boolean true)) [bGreaterTwo]) () =
      some (scanPlan [bGreaterTwo]) := rfl
  refine ⟨scanPlan [bGreaterTwo], ?_, rfl, by decide +kernel, by decide +kernel⟩
  refine .tail ?_ third_pass_truthful third
  refine .tail ?_ second_pass_truthful second
  exact .tail .refl first_pass_truthful first

/-- `a > 1 AND (b > 2 OR false)`: both comparisons are there when the first is pushed. -/
def earlyComparison : CellExpr :=
  .conjunction .and [aGreaterOne, .conjunction .or [bGreaterTwo, .value (.boolean false)]]

theorem early_pass_truthful :
    SimplifiesTruthfully cellOps (selectPlan earlyComparison []) := by
  rw [simplifies_truthfully_iff]
  have pairs : simplifications cellOps (selectPlan earlyComparison []) =
      [(earlyComparison, .conjunction .and [aGreaterOne, bGreaterTwo]),
        (.conjunction .and [aGreaterOne, bGreaterTwo],
          .conjunction .and [aGreaterOne, bGreaterTwo])] := rfl
  rw [pairs]
  simp only [forall_mem_cons]
  refine ⟨fun tuple => ?_, by simp⟩
  simp only [earlyComparison, passes_and, all_cons, passes_or_false]

theorem early_pass_bare : PushesOntoBareScans cellOps (selectPlan earlyComparison []) := by
  have sites : rewriteSites cellOps (planDepth (selectPlan earlyComparison []))
      (selectPlan earlyComparison []) =
        [(selectPlan earlyComparison [],
          selectPlan (.conjunction .and [aGreaterOne, bGreaterTwo]) []),
        (.unary .predicate [.conjunction .and [aGreaterOne, bGreaterTwo]] (.tableGet () []),
          .unary .predicate [.conjunction .and [aGreaterOne, bGreaterTwo]] (.tableGet () [])),
        (.tableGet () [aGreaterOne, bGreaterTwo],
          .tableGet () [aGreaterOne, bGreaterTwo])] := rfl
  intro site visited
  rw [sites] at visited
  simp only [mem_cons, not_mem_nil, or_false] at visited
  rcases visited with rfl | rfl | rfl
  · trivial
  · exact Or.inr rfl
  · trivial

/-- The pass pushes both of its comparisons at once and keeps the selected rows. -/
theorem early_comparison_keeps_selected :
    selected cellOps (fun _ => [(0, 3), (2, 3)]) (fun left _ => left)
        (selectPlan (.value (.boolean true)) [aGreaterOne, bGreaterTwo]) =
      selected cellOps (fun _ => [(0, 3), (2, 3)]) (fun left _ => left)
        (selectPlan earlyComparison []) := by
  have pass : passStep cellOps (selectPlan earlyComparison []) () =
      some (selectPlan (.value (.boolean true)) [aGreaterOne, bGreaterTwo]) := rfl
  apply bare_passes_keep_selected
  exact .tail .refl ⟨early_pass_truthful, early_pass_bare⟩ pass

end CsuDbms.LogicalPlanModel

import CsuDbms.PredicatePlacement

/-!
# Passes of the expression rewriter and the truth of a condition

The conjunction rule puts the first child in the place of a conjunction that a
later constant decides, and a disjunction whose children are all false constants
is emptied, which makes it true. Where neither happens a pass keeps the truth of
a condition on every row.
-/

namespace CsuDbms.LogicalPlanModel

open TransitionSystem List Option

variable {Value Field AttrType Tuple : Type}

def isOperand : Expr Value Field AttrType → Bool
  | .field _ => true
  | .value _ => true
  | .cast _ child => isOperand child
  | .comparison _ left right => isOperand left && isOperand right
  | .arithmetic _ left right => isOperand left && isOperand right
  | .negative child => isOperand child
  | .conjunction _ _ => false

/-- Conditions are made of comparisons, constants and the like by `AND` and `OR`. -/
inductive IsCondition : Expr Value Field AttrType → Prop
  | operand {expr : Expr Value Field AttrType} (operand : isOperand expr = true) : IsCondition expr
  | conjunction {type : ConjunctionType} {children : List (Expr Value Field AttrType)}
      (conditions : ∀ child ∈ children, IsCondition child) :
      IsCondition (.conjunction type children)

variable (ops : ValueOps Value Field AttrType Tuple)

def truth (tuple : Tuple) (expr : Expr Value Field AttrType) : Option Bool :=
  (getValue ops tuple expr).map ops.getBoolean

def isNeutral (type : ConjunctionType) (child : Expr Value Field AttrType) : Bool :=
  boolConstant ops child = some (decide (type = .and))

def isDeciding (type : ConjunctionType) (child : Expr Value Field AttrType) : Bool :=
  boolConstant ops child = some (!decide (type = .and))

/-- A constant that decides a conjunction is the first child that is not erased, and the children
of a disjunction are not all erased. -/
def keepsMeaning (type : ConjunctionType) (children : List (Expr Value Field AttrType)) : Bool :=
  match children.dropWhile (isNeutral ops type) with
  | [] => type = .and || children.isEmpty
  | first :: rest => isDeciding ops type first || rest.all fun child => !isDeciding ops type child

mutual

def simplifiable : Expr Value Field AttrType → Bool
  | .conjunction type children => keepsMeaning ops type children && simplifiableEach children
  | _ => true

def simplifiableEach : List (Expr Value Field AttrType) → Bool
  | [] => true
  | child :: rest => simplifiable child && simplifiableEach rest

end

def conditionPass (expr : Expr Value Field AttrType) (_ : Unit) :
    Option (Expr Value Field AttrType) :=
  (rewriteExpression ops (exprDepth expr) expr).map Rewritten.result

def Simplifiable (expr : Expr Value Field AttrType) (_ : Unit) : Prop :=
  simplifiable ops expr = true

instance (expr : Expr Value Field AttrType) (action : Unit) :
    Decidable (Simplifiable ops expr action) :=
  inferInstanceAs (Decidable (_ = _))

/-- No pass from here fails, and a condition that can be evaluated keeps its truth. -/
def KeepsMeaning (first last : Expr Value Field AttrType) : Prop :=
  (conditionPass ops last ()).isSome = true ∧
    ∀ tuple flag, truth ops tuple first = some flag → truth ops tuple last = some flag

variable {ops} {tuple : Tuple} {type : ConjunctionType} {expr : Expr Value Field AttrType}
  {children others : List (Expr Value Field AttrType)}

theorem simplifiable_each (each : simplifiableEach ops children = true) :
    ∀ child ∈ children, simplifiable ops child = true := by
  induction children with
  | nil => exact fun child member => absurd member not_mem_nil
  | cons first rest ih =>
    obtain ⟨here, later⟩ := (Bool.and_eq_true _ _).mp each
    exact forall_mem_cons.mpr ⟨here, ih later⟩

theorem conjunction_value_cons (tuple : Tuple) (type : ConjunctionType)
    (child : Expr Value Field AttrType) (rest : List (Expr Value Field AttrType)) :
    conjunctionValue ops tuple type (child :: rest) =
      (truth ops tuple child).bind fun flag =>
        if flag = decide (type = .and) then conjunctionValue ops tuple type rest
        else some flag := by
  rw [conjunctionValue, truth]
  cases getValue ops tuple child with
  | none => rfl
  | some value =>
    change _ = if ops.getBoolean value = _ then _ else _
    cases type <;> cases flag : ops.getBoolean value <;> simp [flag]

theorem truth_conjunction (tuple : Tuple) (type : ConjunctionType)
    (children : List (Expr Value Field AttrType)) :
    truth ops tuple (.conjunction type children) =
      if children.isEmpty then some true else conjunctionValue ops tuple type children := by
  rw [truth, getValue]
  split
  · simp [ops.get_set_boolean]
  · rw [Option.map_map]
    have same : ops.getBoolean ∘ ops.setBoolean = id := funext ops.get_set_boolean
    rw [same, Option.map_id, id]

theorem truth_of_constant {flag : Bool} (constant : boolConstant ops expr = some flag) :
    truth ops tuple expr = some flag := by
  cases expr with
  | value known =>
    rw [boolConstant] at constant
    obtain ⟨_, same⟩ := ite_none_right_eq_some.mp constant
    exact same
  | _ => cases constant

theorem conjunction_value_filter (tuple : Tuple) (type : ConjunctionType)
    (children : List (Expr Value Field AttrType)) :
    conjunctionValue ops tuple type (children.filter fun child => !isNeutral ops type child) =
      conjunctionValue ops tuple type children := by
  induction children with
  | nil => rfl
  | cons child rest ih =>
    rw [conjunction_value_cons, filter_cons]
    by_cases neutral : isNeutral ops type child
    · rw [truth_of_constant (of_decide_eq_true neutral)]
      simpa [neutral] using ih
    · simp only [neutral, Bool.not_false, if_true]
      rw [conjunction_value_cons, ih]

theorem drop_neutral_neutral {kept rest : List (Expr Value Field AttrType)}
    (neutral : isNeutral ops type expr = true) :
    dropNeutral ops type kept (expr :: rest) = dropNeutral ops type kept rest := by
  rw [dropNeutral, of_decide_eq_true neutral]
  exact if_pos rfl

theorem drop_neutral_while (kept children : List (Expr Value Field AttrType)) :
    dropNeutral ops type kept (children.dropWhile (isNeutral ops type)) =
      dropNeutral ops type kept children := by
  induction children with
  | nil => rfl
  | cons child rest ih =>
    rw [dropWhile_cons]
    split
    next neutral => rw [ih, drop_neutral_neutral neutral]
    · rfl

theorem drop_neutral_all (kept : List (Expr Value Field AttrType))
    (undecided : ∀ child ∈ children, isDeciding ops type child = false) :
    dropNeutral ops type kept children =
      (none, kept ++ children.filter fun child => !isNeutral ops type child) := by
  fun_induction dropNeutral ops type kept children with
  | case1 => simp
  | case2 kept child rest unknown ih =>
    rw [ih (forall_mem_cons.mp undecided).2]
    simp [isNeutral, unknown]
  | case3 kept child rest neutral ih =>
    rw [ih (forall_mem_cons.mp undecided).2]
    simp [isNeutral, neutral]
  | case4 kept child rest constant known other =>
    have here := undecided child mem_cons_self
    simp only [isDeciding, known] at here
    cases constant <;> cases type <;> simp_all

theorem conjunction_value_single (tuple : Tuple) (type : ConjunctionType)
    (child : Expr Value Field AttrType) :
    conjunctionValue ops tuple type [child] = truth ops tuple child := by
  rw [conjunction_value_cons]
  cases truth ops tuple child with
  | none => rfl
  | some flag => cases flag <;> cases type <;> simp [conjunctionValue]

theorem conjunction_value_while (tuple : Tuple) (children : List (Expr Value Field AttrType)) :
    conjunctionValue ops tuple type (children.dropWhile (isNeutral ops type)) =
      conjunctionValue ops tuple type children := by
  induction children with
  | nil => rfl
  | cons child rest ih =>
    rw [dropWhile_cons]
    split
    next neutral =>
      rw [ih, conjunction_value_cons, truth_of_constant (of_decide_eq_true neutral)]
      exact (if_pos rfl).symm
    · rfl

theorem truth_of_erased (erased : children.dropWhile (isNeutral ops type) = [])
    (keeps : type = .and ∨ children = []) (tuple : Tuple) :
    truth ops tuple (.conjunction type children) = some true := by
  rw [truth_conjunction, ← conjunction_value_while, erased, conjunctionValue]
  rcases keeps with conjunction | none
  · simp [conjunction]
  · simp [none]

theorem conjunction_rule_truth (keeps : keepsMeaning ops type children = true) (tuple : Tuple) :
    truth ops tuple (conjunctionRule ops (.conjunction type children)).result =
      truth ops tuple (.conjunction type children) := by
  rw [conjunctionRule, ← drop_neutral_while]
  unfold keepsMeaning at keeps
  cases remaining : children.dropWhile (isNeutral ops type) with
  | nil =>
    simp only [remaining, Bool.or_eq_true, decide_eq_true_eq, List.isEmpty_iff] at keeps
    rw [truth_of_erased remaining keeps]
    exact truth_conjunction tuple type []
  | cons first rest =>
    have some_child : children.isEmpty = false := by
      cases children with
      | nil => cases remaining
      | cons child others => rfl
    have not_neutral : isNeutral ops type first = false := by
      have head := head?_dropWhile_not (isNeutral ops type) children
      rw [remaining] at head
      simpa using head
    rw [truth_conjunction, some_child, if_neg Bool.false_ne_true, ← conjunction_value_while,
      remaining]
    by_cases deciding : isDeciding ops type first
    · have constant := of_decide_eq_true deciding
      have decided : dropNeutral ops type [] (first :: rest) = (some first, []) := by
        rw [dropNeutral, constant]
        exact if_neg (Bool.not_ne_self _)
      rw [decided, conjunction_value_cons, truth_of_constant constant]
      exact (if_neg (Bool.not_ne_self _)).symm
    · have undecided : ∀ child ∈ first :: rest, isDeciding ops type child = false := by
        simp only [remaining, deciding, Bool.false_or, List.all_eq_true] at keeps
        intro child member
        rcases List.mem_cons.mp member with rfl | later
        · exact Bool.eq_false_iff.mpr deciding
        · simpa using keeps child later
      rw [drop_neutral_all [] undecided, ← conjunction_value_filter, List.nil_append,
        List.filter_cons, not_neutral]
      simp only [Bool.not_false, if_true]
      cases rest.filter fun child => !isNeutral ops type child with
      | nil => exact (conjunction_value_single tuple type first).symm
      | cons second others => exact truth_conjunction tuple type _

/-- The constants of the source can always be computed: `calc_value` ignores what `Value::add` and
the others return. -/
def CalcTotal (ops : ValueOps Value Field AttrType Tuple) : Prop :=
  ∀ type left right, (ops.calcValue type left right).isSome = true

/-- The part of `rewrite_expression` behind the rules. -/
def descend (ops : ValueOps Value Field AttrType Tuple) (fuel : Nat)
    (ruled : Rewritten (Expr Value Field AttrType)) :
    Option (Rewritten (Expr Value Field AttrType)) :=
  match ruled.result with
  | .cast type child => do
      let inner ← rewriteExpression ops fuel child
      some ⟨.cast type inner.result, inner.changeMade⟩
  | .comparison comp left right => do
      let leftInner ← rewriteExpression ops fuel left
      let rightInner ← rewriteExpression ops fuel right
      some ⟨.comparison comp leftInner.result rightInner.result,
        leftInner.changeMade || rightInner.changeMade⟩
  | .conjunction type children => do
      let inner ← rewriteEach (rewriteExpression ops fuel) children
      some ⟨.conjunction type inner.result, inner.changeMade⟩
  | _ => some ruled

theorem rewrite_expression_succ (fuel : Nat) (expr : Expr Value Field AttrType) :
    rewriteExpression ops (fuel + 1) expr =
      (applyRules ops expr).bind fun ruled =>
        if ruled.changeMade then some ruled else descend ops fuel ruled := rfl

def SameOperand (ops : ValueOps Value Field AttrType Tuple)
    (before after : Expr Value Field AttrType) : Prop :=
  isOperand after = true ∧ ∀ tuple, getValue ops tuple after = getValue ops tuple before

theorem rules_operand (total : CalcTotal ops) (operand : isOperand expr = true) :
    ∃ ruled, applyRules ops expr = some ruled ∧ SameOperand ops expr ruled.result := by
  have folded : ∃ ruled, arithmeticRule ops expr = some ruled ∧
      SameOperand ops expr ruled.result := by
    unfold arithmeticRule
    split
    next type left right =>
      obtain ⟨result, known⟩ := isSome_iff_exists.mp (total type left right)
      rw [known]
      exact ⟨_, rfl, rfl, fun tuple => known.symm⟩
    · exact ⟨_, rfl, operand, fun tuple => rfl⟩
  obtain ⟨arithmetic, applied, is_operand, same⟩ := folded
  have compared : SameOperand ops arithmetic.result
      (comparisonRule ops arithmetic.result).result := by
    unfold comparisonRule
    split
    next comp left right shape =>
      split
      next flag known =>
        refine ⟨rfl, fun tuple => ?_⟩
        rw [shape]
        simp [getValue, known]
      · exact ⟨rfl, fun tuple => by rw [shape]⟩
    · exact ⟨is_operand, fun tuple => rfl⟩
  have no_conjunction : conjunctionRule ops (comparisonRule ops arithmetic.result).result =
      ⟨(comparisonRule ops arithmetic.result).result, false⟩ := by
    unfold conjunctionRule
    split
    next shape =>
      have impossible := compared.1
      rw [shape] at impossible
      cases impossible
    · rfl
  refine ⟨_, by rw [applyRules, applied]; rfl, ?_⟩
  rw [no_conjunction]
  exact ⟨compared.1, fun tuple => (compared.2 tuple).trans (same tuple)⟩

theorem descend_operand {fuel : Nat} {ruled : Rewritten (Expr Value Field AttrType)}
    (inner : ∀ operand : Expr Value Field AttrType, isOperand operand = true →
      ∃ ruled, rewriteExpression ops fuel operand = some ruled ∧
        SameOperand ops operand ruled.result)
    (operand : isOperand ruled.result = true) :
    ∃ result, descend ops fuel ruled = some result ∧
      SameOperand ops ruled.result result.result := by
  unfold descend
  split
  next type child shape =>
    rw [shape] at operand
    obtain ⟨below, rewritten, is_operand, same⟩ := inner child operand
    refine ⟨⟨.cast type below.result, below.changeMade⟩, by rw [rewritten]; rfl, is_operand,
      fun tuple => ?_⟩
    rw [shape, getValue, getValue, same]
  next comp left right shape =>
    rw [shape] at operand
    obtain ⟨left_operand, right_operand⟩ := (Bool.and_eq_true _ _).mp operand
    obtain ⟨first, first_rewritten, first_operand, first_same⟩ := inner left left_operand
    obtain ⟨second, second_rewritten, second_operand, second_same⟩ := inner right right_operand
    refine ⟨⟨.comparison comp first.result second.result, first.changeMade || second.changeMade⟩,
      by rw [first_rewritten, second_rewritten]; rfl,
      (Bool.and_eq_true _ _).mpr ⟨first_operand, second_operand⟩, fun tuple => ?_⟩
    rw [shape, getValue, getValue, first_same, second_same]
  next shape =>
    rw [shape] at operand
    cases operand
  · exact ⟨ruled, rfl, operand, fun tuple => rfl⟩

theorem rewrite_operand (total : CalcTotal ops) (fuel : Nat) (operand : isOperand expr = true) :
    ∃ result, rewriteExpression ops fuel expr = some result ∧
      SameOperand ops expr result.result := by
  induction fuel generalizing expr with
  | zero => exact ⟨_, rfl, operand, fun tuple => rfl⟩
  | succ fuel ih =>
    obtain ⟨ruled, applied, is_operand, same⟩ := rules_operand total operand
    rw [rewrite_expression_succ, applied, bind_some]
    split
    · exact ⟨ruled, rfl, is_operand, same⟩
    · obtain ⟨result, descended, still_operand, still_same⟩ :=
        descend_operand (fun _ => ih) is_operand
      exact ⟨result, descended, still_operand,
        fun tuple => (still_same tuple).trans (same tuple)⟩

def SameCondition (ops : ValueOps Value Field AttrType Tuple)
    (before after : Expr Value Field AttrType) : Prop :=
  IsCondition after ∧
    ∀ tuple flag, truth ops tuple before = some flag → truth ops tuple after = some flag

theorem same_condition_of_operand {before after : Expr Value Field AttrType}
    (same : SameOperand ops before after) : SameCondition ops before after := by
  refine ⟨.operand same.1, fun tuple flag known => ?_⟩
  rw [truth, same.2 tuple]
  exact known

theorem rewrite_each_forall {rewriteOne : Expr Value Field AttrType →
      Option (Rewritten (Expr Value Field AttrType))}
    {related : Expr Value Field AttrType → Expr Value Field AttrType → Prop}
    (each : ∀ child ∈ children, ∃ result, rewriteOne child = some result ∧
      related child result.result) :
    ∃ results, rewriteEach rewriteOne children = some results ∧
      List.Forall₂ related children results.result := by
  induction children with
  | nil => exact ⟨_, rfl, .nil⟩
  | cons child rest ih =>
    obtain ⟨first, rewritten, same⟩ := each child mem_cons_self
    obtain ⟨later, rest_rewritten, rest_same⟩ :=
      ih fun other member => each other (mem_cons_of_mem _ member)
    refine ⟨⟨first.result :: later.result, first.changeMade || later.changeMade⟩, ?_,
      .cons same rest_same⟩
    rw [rewriteEach, rewritten, rest_rewritten]
    rfl

theorem same_conjunction (same : List.Forall₂ (SameCondition ops) children others) :
    SameCondition ops (.conjunction type children) (.conjunction type others) := by
  refine ⟨.conjunction ?_, fun tuple flag known => ?_⟩
  · induction same with
    | nil => exact fun child member => absurd member not_mem_nil
    | cons first _ ih => exact forall_mem_cons.mpr ⟨first.1, ih⟩
  · have values (value : conjunctionValue ops tuple type children = some flag) :
        conjunctionValue ops tuple type others = some flag := by
      clear known
      induction same with
      | nil => exact value
      | cons pair _ ih =>
        rw [conjunction_value_cons] at value ⊢
        obtain ⟨here, decided, below⟩ := bind_eq_some_iff.mp value
        rw [pair.2 tuple here decided, bind_some]
        split at below
        next neutral => exact (if_pos neutral).trans (ih below)
        next not_neutral => exact (if_neg not_neutral).trans below
    rw [truth_conjunction] at known ⊢
    cases same with
    | nil => exact known
    | cons => exact values known

def Ruled (ops : ValueOps Value Field AttrType Tuple) (expr : Expr Value Field AttrType) : Prop :=
  isOperand expr = true ∨ ∃ type children, expr = .conjunction type children ∧
    ∀ child ∈ children, IsCondition child ∧ simplifiable ops child = true

theorem ruled_of_condition (condition : IsCondition expr)
    (harmless : simplifiable ops expr = true) : Ruled ops expr := by
  cases condition with
  | operand operand => exact .inl operand
  | conjunction conditions =>
    obtain ⟨_, each⟩ := (Bool.and_eq_true _ _).mp harmless
    exact .inr ⟨_, _, rfl, fun child member =>
      ⟨conditions child member, simplifiable_each each child member⟩⟩

theorem conjunction_rule_ruled
    (each : ∀ child ∈ children, IsCondition child ∧ simplifiable ops child = true) :
    Ruled ops (conjunctionRule ops (.conjunction type children)).result := by
  have kept := drop_neutral_mem ops type [] children
  unfold conjunctionRule
  simp only
  split
  next first _ dropped =>
    obtain ⟨condition, harmless⟩ := each first (kept first (by simp [dropped]))
    exact ruled_of_condition condition harmless
  next child dropped =>
    obtain ⟨condition, harmless⟩ := each child (kept child (by simp [dropped]))
    exact ruled_of_condition condition harmless
  next remaining _ dropped =>
    exact .inr ⟨_, _, rfl, fun child member => each child (kept child (by simp [dropped, member]))⟩

theorem condition_of_ruled (ruled : Ruled ops expr) : IsCondition expr := by
  rcases ruled with operand | ⟨type, children, rfl, each⟩
  · exact .operand operand
  · exact .conjunction fun child member => (each child member).1

theorem rewrite_condition (total : CalcTotal ops) (fuel : Nat) (condition : IsCondition expr)
    (harmless : simplifiable ops expr = true) :
    ∃ result, rewriteExpression ops fuel expr = some result ∧
      SameCondition ops expr result.result := by
  induction fuel generalizing expr with
  | zero => exact ⟨_, rfl, condition, fun tuple flag => id⟩
  | succ fuel ih =>
    cases condition with
    | operand operand =>
      obtain ⟨result, rewritten, same⟩ := rewrite_operand total (fuel + 1) operand
      exact ⟨result, rewritten, same_condition_of_operand same⟩
    | @conjunction type children conditions =>
      obtain ⟨keeps, each⟩ := (Bool.and_eq_true _ _).mp harmless
      have ruled : Ruled ops (conjunctionRule ops (.conjunction type children)).result :=
        conjunction_rule_ruled fun child member =>
          ⟨conditions child member, simplifiable_each each child member⟩
      have same := conjunction_rule_truth keeps
      have applied : applyRules ops (.conjunction type children) =
          some (conjunctionRule ops (.conjunction type children)) := by
        rw [applyRules, arithmeticRule]
        · rfl
        · exact fun _ _ _ shape => by cases shape
      rw [rewrite_expression_succ, applied, bind_some]
      generalize conjunctionRule ops (.conjunction type children) = step at ruled same
      split
      · exact ⟨step, rfl, condition_of_ruled ruled, fun tuple flag known => same tuple ▸ known⟩
      · have descended : ∃ result, descend ops fuel step = some result ∧
            SameCondition ops step.result result.result := by
          rcases ruled with operand | ⟨type, kept, shape, each⟩
          · obtain ⟨result, descended, same⟩ := descend_operand
              (fun _ => rewrite_operand total fuel) operand
            exact ⟨result, descended, same_condition_of_operand same⟩
          · obtain ⟨results, rewritten, pairs⟩ := rewrite_each_forall fun child member =>
              ih (each child member).1 (each child member).2
            refine ⟨⟨.conjunction type results.result, results.changeMade⟩, ?_, ?_⟩
            · rw [descend, shape]
              simp only [rewritten]
              rfl
            · rw [shape]
              exact same_conjunction pairs
        obtain ⟨result, descended, is_condition, kept⟩ := descended
        exact ⟨result, descended, is_condition,
          fun tuple flag known => kept tuple flag (same tuple ▸ known)⟩

theorem rewrite_some (total : CalcTotal ops) (fuel : Nat) (expr : Expr Value Field AttrType) :
    ∃ result, rewriteExpression ops fuel expr = some result := by
  induction fuel generalizing expr with
  | zero => exact ⟨_, rfl⟩
  | succ fuel ih =>
    have folded : ∃ ruled, arithmeticRule ops expr = some ruled := by
      unfold arithmeticRule
      split
      next type left right =>
        obtain ⟨result, known⟩ := Option.isSome_iff_exists.mp (total type left right)
        exact ⟨_, congrArg (Option.map _) known⟩
      · exact ⟨_, rfl⟩
    obtain ⟨arithmetic, applied⟩ := folded
    rw [rewrite_expression_succ, applyRules, applied]
    simp only [bind_eq_bind, bind_some]
    split
    · exact ⟨_, rfl⟩
    · unfold descend
      split
      next child _ =>
        obtain ⟨inner, rewritten⟩ := ih child
        exact ⟨_, by rw [rewritten]; rfl⟩
      next left right _ =>
        obtain ⟨first, first_rewritten⟩ := ih left
        obtain ⟨second, second_rewritten⟩ := ih right
        exact ⟨_, by rw [first_rewritten, second_rewritten]; rfl⟩
      next children _ =>
        have each : ∀ child ∈ children, ∃ result,
            rewriteExpression ops fuel child = some result ∧ True :=
          fun child _ => (ih child).imp fun _ rewritten => ⟨rewritten, trivial⟩
        obtain ⟨results, rewritten, _⟩ :=
          @rewrite_each_forall _ _ _ _ _ (fun _ _ => True) each
        exact ⟨_, by rw [rewritten]; rfl⟩
      · exact ⟨_, rfl⟩

theorem passes_keep_meaning {first last : Expr Value Field AttrType} (total : CalcTotal ops)
    (condition : IsCondition first)
    (ran : Reaches (conditionPass ops) (Simplifiable ops) first last) :
    KeepsMeaning ops first last := by
  have same : SameCondition ops first last := by
    apply reaches_invariant (SameCondition ops first) _ ⟨condition, fun tuple flag => id⟩ ran
    intro before _ after kept harmless taken
    obtain ⟨result, rewritten, is_condition, truthful⟩ :=
      rewrite_condition total (exprDepth before) kept.1 harmless
    rw [conditionPass, rewritten] at taken
    cases taken
    exact ⟨is_condition, fun tuple flag known => truthful tuple flag (kept.2 tuple flag known)⟩
  obtain ⟨result, rewritten⟩ := rewrite_some total (exprDepth last) last
  refine ⟨?_, same.2⟩
  rw [conditionPass, rewritten]
  rfl

def totalCellOps : ValueOps SampleCell Column Unit (Int × Int) :=
  { cellOps with
    calcValue := fun type left right =>
      some (.int ((calcNumbers type left.number right.number).getD 0)) }

theorem late_comparison_run :
    (run (conditionPass totalCellOps) (Simplifiable totalCellOps) lateComparison
      [(), (), ()]).isSome = true := by
  decide +kernel

/-- `a > 1 AND (b > 2 OR 1 = 1 + 1)` becomes `a > 1 AND b > 2` in three passes. -/
theorem late_comparison_keeps_meaning :
    ∃ last, Reaches (conditionPass totalCellOps) (Simplifiable totalCellOps) lateComparison last ∧
      last = .conjunction .and [aGreaterOne, bGreaterTwo] ∧
      KeepsMeaning totalCellOps lateComparison last :=
  ⟨_, run_get_reaches late_comparison_run, rfl,
    passes_keep_meaning (fun _ _ _ => rfl)
      (.conjunction (by
        simp only [forall_mem_cons]
        exact ⟨.operand rfl, .conjunction (by
          simp only [forall_mem_cons]
          exact ⟨.operand rfl, .operand rfl, fun _ none => absurd none not_mem_nil⟩),
          fun _ none => absurd none not_mem_nil⟩))
      (run_get_reaches late_comparison_run)⟩

/-- `a > 1 AND false` becomes `a > 1`. -/
theorem false_behind_comparison_is_lost :
    ¬ ∀ first : CellExpr, IsCondition first → ∀ last,
      Reaches (conditionPass totalCellOps) (fun _ _ => True) first last →
        KeepsMeaning totalCellOps first last := by
  intro keeps
  have condition : IsCondition (.conjunction .and [aGreaterOne, .value (.boolean false)]) := by
    apply IsCondition.conjunction
    simp only [forall_mem_cons]
    exact ⟨.operand rfl, .operand rfl, fun _ none => absurd none not_mem_nil⟩
  have pass : conditionPass totalCellOps
      (.conjunction .and [aGreaterOne, .value (.boolean false)]) () = some aGreaterOne := rfl
  have kept := (keeps _ condition _ (.tail .refl trivial pass)).2 (2, 0) false rfl
  cases kept

end CsuDbms.LogicalPlanModel

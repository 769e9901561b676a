import CsuDbms.CascadeModel

/-!
# What the memo of the cascade optimizer holds

Inserting a logical plan gives every operator of it one expression in a group of
its own, equal operators sharing one. `home` names the group of each operator;
later tasks only add physical expressions.
-/

namespace CsuDbms.CascadeModel

open List Function Memo

def Plan.nodes : Plan → List Plan
  | .leaf op => [.leaf op]
  | .unary op child => .unary op child :: child.nodes
  | .join left right => .join left right :: (left.nodes ++ right.nodes)

theorem self_mem_nodes (plan : Plan) : plan ∈ plan.nodes := by
  cases plan <;> simp [Plan.nodes]

variable {plan : Plan}

theorem nodes_of_child {child : Plan} (member : child ∈ plan.children) :
    child.nodes ⊆ plan.nodes := by
  intro node inside
  cases plan with
  | leaf op => simp [Plan.children] at member
  | unary op below =>
    obtain rfl := mem_singleton.mp member
    exact .tail _ inside
  | join left right =>
    simp only [Plan.children, mem_cons, not_mem_nil, or_false] at member
    simp only [Plan.nodes, mem_cons, mem_append]
    rcases member with rfl | rfl
    · exact .inr (.inl inside)
    · exact .inr (.inr inside)

theorem forall_nodes {holds : Plan → Prop}
    (down : ∀ plan, holds plan → ∀ child ∈ plan.children, holds child) (own : holds plan) :
    ∀ node ∈ plan.nodes, holds node := by
  have children := down plan own
  induction plan with
  | leaf op => exact forall_mem_singleton.mpr own
  | unary op child ih =>
    have below := children child (.head _)
    exact forall_mem_cons.mpr ⟨own, ih below (down child below)⟩
  | join left right leftIh rightIh =>
    have first := children left (.head _)
    have second := children right (.tail _ (.head _))
    exact forall_mem_cons.mpr ⟨own, forall_mem_append.mpr
      ⟨leftIh first (down left first), rightIh second (down right second)⟩⟩

def Node.source : Node → Option Plan
  | .physical (.seqScan tableId) [] => some (.leaf (.tableGet tableId))
  | .physical .calculate [] => some (.leaf .calculate)
  | .physical .insert [] => some (.leaf .insert)
  | .physical .filter [child] => some (.unary .predicate child)
  | .physical .projection [child] => some (.unary .project child)
  | .physical .delete [child] => some (.unary .delete child)
  | .physical .explain [child] => some (.unary .explain child)
  | _ => none

structure Recorded (home : Plan → Nat) (memo : Memo) (plan : Plan) : Prop where
  expr : ∃ expr < memo.exprCount, (memo.exprs expr).contents = .logical plan ∧
    (memo.groups (home plan)).logicalExpressions = [expr]
  placed : ∀ expr < memo.exprCount, (memo.exprs expr).contents = .logical plan →
    (memo.exprs expr).groupId = home plan ∧
      (memo.exprs expr).childGroups = plan.children.map home
  below : ∀ child ∈ plan.children, home child < home plan

structure Fresh (home : Plan → Nat) (memo : Memo) (plan : Plan) : Prop where
  noWinner : (memo.groups (home plan)).winner = none
  unexplored : (memo.groups (home plan)).hasExplored = false
  noPhysical : (memo.groups (home plan)).physicalExpressions = []
  notImplemented : ∀ expr < memo.exprCount, (memo.exprs expr).contents.source ≠ some plan
  noRule : ∀ expr < memo.exprCount, (memo.exprs expr).contents = .logical plan →
    ∀ rule, (memo.exprs expr).ruleMask rule = false

variable {memo : Memo}

theorem find_some {contents : Node} {childGroups : List Nat} {expr : Nat}
    (found : memo.find contents childGroups = some expr) :
    expr < memo.exprCount ∧ (memo.exprs expr).contents = contents ∧
      (memo.exprs expr).childGroups = childGroups := by
  have inside := mem_of_find?_eq_some found
  have equal := find?_some found
  exact ⟨mem_range.mp inside, of_decide_eq_true equal⟩

theorem find_none {contents : Node} {childGroups : List Nat}
    (missing : memo.find contents childGroups = none) (expr : Nat)
    (bound : expr < memo.exprCount) (same : (memo.exprs expr).contents = contents) :
    (memo.exprs expr).childGroups ≠ childGroups := by
  intro children
  have absent := find?_eq_none.mp missing expr (mem_range.mpr bound)
  exact absent (decide_eq_true ⟨same, children⟩)

variable {home : Plan → Nat}

theorem insert_recorded (recorded : Recorded home memo plan) (targetGroup : Option Nat) :
    (memo.insertExpression (.logical plan) (plan.children.map home) targetGroup).memo = memo ∧
      (memo.insertExpression (.logical plan) (plan.children.map home) targetGroup).groupId =
        home plan := by
  obtain ⟨expr, bound, contents, -⟩ := recorded.expr
  cases found : memo.find (.logical plan) (plan.children.map home) with
  | none =>
    exact absurd (recorded.placed expr bound contents).2 (find_none found expr bound contents)
  | some other =>
    obtain ⟨inside, same, -⟩ := find_some found
    simp [insertExpression, Inserted.groupId, found, recorded.placed other inside same]

theorem insert_plan_recorded (plan : Plan)
    (recorded : ∀ node ∈ plan.nodes, Recorded home memo node) :
    (memo.insertPlan plan).memo = memo ∧ (memo.insertPlan plan).groupId = home plan := by
  have own := insert_recorded (recorded plan (self_mem_nodes plan)) none
  induction plan with
  | leaf op => exact own
  | unary op child ih =>
    have inside : ∀ node ∈ child.nodes, Recorded home memo node :=
      fun node member => recorded node (.tail _ member)
    obtain ⟨same, group⟩ := ih inside
      (insert_recorded (inside child (self_mem_nodes child)) none)
    rw [insertPlan, same, group]
    exact own
  | join left right leftIh rightIh =>
    have first : ∀ node ∈ left.nodes, Recorded home memo node :=
      fun node member => recorded node (.tail _ (mem_append_left _ member))
    have second : ∀ node ∈ right.nodes, Recorded home memo node :=
      fun node member => recorded node (.tail _ (mem_append_right _ member))
    obtain ⟨leftSame, leftGroup⟩ := leftIh first
      (insert_recorded (first left (self_mem_nodes left)) none)
    obtain ⟨rightSame, rightGroup⟩ := rightIh second
      (insert_recorded (second right (self_mem_nodes right)) none)
    rw [insertPlan, leftSame, leftGroup, rightSame, rightGroup]
    exact own

theorem make_group_expression_recorded (plans : List Plan)
    (recorded : ∀ plan ∈ plans, ∀ node ∈ plan.nodes, Recorded home memo node) :
    memo.makeGroupExpression plans = (memo, plans.map home) := by
  induction plans with
  | nil => rfl
  | cons plan rest ih =>
    obtain ⟨same, group⟩ := insert_plan_recorded plan (recorded plan (.head _))
    rw [makeGroupExpression, same, group,
      ih fun other member => recorded other (.tail _ member)]
    rfl

def Held (memo : Memo) (plan : Plan) : Prop :=
  ∃ expr < memo.exprCount, (memo.exprs expr).contents = .logical plan

/-- The memo while the logical plan is inserted: logical expressions only, each in its group,
with its children. -/
structure Catalogued (home : Plan → Nat) (memo : Memo) : Prop where
  logical : ∀ expr < memo.exprCount, ∃ plan, (memo.exprs expr).contents = .logical plan ∧
    (memo.groups (home plan)).logicalExpressions = [expr] ∧
    (memo.exprs expr).groupId = home plan ∧
    (memo.exprs expr).childGroups = plan.children.map home ∧ home plan < memo.groupCount ∧
    ∀ child ∈ plan.children, Held memo child ∧ home child < home plan
  noRule : ∀ expr < memo.exprCount, ∀ rule, (memo.exprs expr).ruleMask rule = false
  idle : ∀ group, (memo.groups group).winner = none ∧ (memo.groups group).hasExplored = false ∧
    (memo.groups group).physicalExpressions = []

theorem catalogued_empty : Catalogued (fun _ => 0) empty where
  logical := fun _ bound => absurd bound (Nat.not_lt_zero _)
  noRule := fun _ bound => absurd bound (Nat.not_lt_zero _)
  idle := fun _ => ⟨rfl, rfl, rfl⟩

section

variable (catalogued : Catalogued home memo)
include catalogued

theorem catalogued_held {expr : Nat} (bound : expr < memo.exprCount)
    (contents : (memo.exprs expr).contents = .logical plan) :
    (memo.groups (home plan)).logicalExpressions = [expr] ∧
      (memo.exprs expr).groupId = home plan ∧
      (memo.exprs expr).childGroups = plan.children.map home ∧ home plan < memo.groupCount ∧
      ∀ child ∈ plan.children, Held memo child ∧ home child < home plan := by
  obtain ⟨other, same, facts⟩ := catalogued.logical expr bound
  obtain rfl : other = plan := Node.logical.inj (same.symm.trans contents)
  exact facts

theorem held_nodes (held : Held memo plan) :
    ∀ node ∈ plan.nodes, Held memo node := by
  refine forall_nodes ?_ held
  rintro other ⟨expr, bound, contents⟩ child member
  exact ((catalogued_held catalogued bound contents).2.2.2.2 child member).1

theorem recorded_of_held (held : Held memo plan) :
    Recorded home memo plan := by
  obtain ⟨expr, bound, contents⟩ := held
  have facts := catalogued_held catalogued bound contents
  refine ⟨⟨expr, bound, contents, facts.1⟩, fun other inside same => ?_,
    fun child member => (facts.2.2.2.2 child member).2⟩
  have others := catalogued_held catalogued inside same
  exact ⟨others.2.1, others.2.2.1⟩

theorem fresh_of_catalogued (plan : Plan) : Fresh home memo plan := by
  obtain ⟨noWinner, unexplored, noPhysical⟩ := catalogued.idle (home plan)
  refine ⟨noWinner, unexplored, noPhysical, fun expr bound => ?_,
    fun expr bound _ => catalogued.noRule expr bound⟩
  obtain ⟨other, contents, -⟩ := catalogued.logical expr bound
  rw [contents]
  exact fun impossible => nomatch impossible

end

@[simp] theorem add_expression_new (memo : Memo) (contents : Node) (childGroups : List Nat)
    (targetGroup : Option Nat) :
    (memo.addExpression contents childGroups targetGroup).exprs memo.exprCount =
      ⟨contents, childGroups, targetGroup.getD memo.groupCount, fun _ => false, none⟩ :=
  update_self ..

theorem add_expression_old (contents : Node) (childGroups : List Nat)
    (targetGroup : Option Nat) {expr : Nat} (old : expr ≠ memo.exprCount) :
    (memo.addExpression contents childGroups targetGroup).exprs expr = memo.exprs expr :=
  update_of_ne old ..

theorem add_expression_group (contents : Node) (childGroups : List Nat)
    (targetGroup : Option Nat) {group : Nat} (other : group ≠ targetGroup.getD memo.groupCount) :
    (memo.addExpression contents childGroups targetGroup).groups group = memo.groups group :=
  update_of_ne other ..

theorem catalogued_add (catalogued : Catalogued home memo) (missing : ¬ Held memo plan)
    (children : ∀ child ∈ plan.children, Held memo child) :
    Catalogued (update home plan memo.groupCount)
      (memo.addExpression (.logical plan) (plan.children.map home) none) := by
  have kept : ∀ other, Held memo other →
      update home plan memo.groupCount other = home other := by
    rintro other held
    exact update_of_ne (by rintro rfl; exact missing held) _ _
  have keptMap : ∀ plans : List Plan, (∀ other ∈ plans, Held memo other) →
      plans.map (update home plan memo.groupCount) = plans.map home :=
    fun plans held => map_congr_left fun other member => kept other (held other member)
  have stays : ∀ other, Held memo other →
      Held (memo.addExpression (.logical plan) (plan.children.map home) none) other := by
    rintro other ⟨expr, bound, contents⟩
    refine ⟨expr, Nat.lt_succ_of_lt bound, ?_⟩
    rwa [add_expression_old _ _ _ (Nat.ne_of_lt bound)]
  have childBelow : ∀ child ∈ plan.children, home child < memo.groupCount := by
    intro child member
    obtain ⟨expr, bound, contents⟩ := children child member
    exact (catalogued_held catalogued bound contents).2.2.2.1
  constructor
  · intro expr bound
    by_cases last : expr = memo.exprCount
    · subst last
      refine ⟨plan, ?_⟩
      rw [add_expression_new, keptMap plan.children children, update_self]
      refine ⟨rfl, ?_, rfl, rfl, Nat.lt_succ_self _, fun child member => ?_⟩
      · simp [addExpression, Group.addExpr, Node.isPhysical, Group.empty]
      rw [kept child (children child member)]
      exact ⟨stays child (children child member), childBelow child member⟩
    · have inside : expr < memo.exprCount :=
        Nat.lt_of_le_of_ne (Nat.le_of_lt_succ bound) last
      obtain ⟨other, contents, facts⟩ := catalogued.logical expr inside
      have held : Held memo other := ⟨expr, inside, contents⟩
      obtain ⟨only, group, groups, below, others⟩ := facts
      refine ⟨other, ?_⟩
      rw [add_expression_old _ _ _ last, kept other held,
        add_expression_group _ _ _ (Nat.ne_of_lt below),
        keptMap other.children fun child member => (others child member).1]
      refine ⟨contents, only, group, groups, Nat.lt_succ_of_lt below, fun child member => ?_⟩
      rw [kept child (others child member).1]
      exact ⟨stays child (others child member).1, (others child member).2⟩
  · intro expr bound rule
    by_cases last : expr = memo.exprCount
    · subst last
      rw [add_expression_new]
    · rw [add_expression_old _ _ _ last]
      exact catalogued.noRule expr (Nat.lt_of_le_of_ne (Nat.le_of_lt_succ bound) last) rule
  · intro group
    by_cases new : group = memo.groupCount
    · subst new
      simp [addExpression, Group.addExpr, Node.isPhysical, Group.empty]
    · rw [add_expression_group _ _ _ new]
      exact catalogued.idle group

structure Grown (home later : Plan → Nat) (memo : Memo) (plan : Plan) (inserted : Inserted) :
    Prop where
  catalogued : Catalogued later inserted.memo
  held : Held inserted.memo plan
  group : inserted.groupId = later plan
  kept : ∀ other, Held memo other → Held inserted.memo other ∧ later other = home other

theorem insert_expression_grown (catalogued : Catalogued home memo)
    (children : ∀ child ∈ plan.children, Held memo child) :
    ∃ later, Grown home later memo plan
      (memo.insertExpression (.logical plan) (plan.children.map home) none) := by
  cases found : memo.find (.logical plan) (plan.children.map home) with
  | some expr =>
    obtain ⟨bound, contents, -⟩ := find_some found
    have facts := catalogued_held catalogued bound contents
    refine ⟨home, ?_⟩
    simp only [insertExpression, found]
    exact ⟨catalogued, ⟨expr, bound, contents⟩, facts.2.1, fun other held => ⟨held, rfl⟩⟩
  | none =>
    have missing : ¬ Held memo plan := by
      rintro ⟨expr, bound, contents⟩
      exact find_none found expr bound contents
        (catalogued_held catalogued bound contents).2.2.1
    refine ⟨update home plan memo.groupCount, ?_⟩
    simp only [insertExpression, found]
    refine ⟨catalogued_add catalogued missing children,
      ⟨memo.exprCount, Nat.lt_succ_self _, by rw [add_expression_new]⟩, ?_, ?_⟩
    · simp [Inserted.groupId]
    · rintro other ⟨expr, bound, contents⟩
      refine ⟨⟨expr, Nat.lt_succ_of_lt bound, ?_⟩, update_of_ne ?_ _ _⟩
      · rwa [add_expression_old _ _ _ (Nat.ne_of_lt bound)]
      · rintro rfl
        exact missing ⟨expr, bound, contents⟩

theorem insert_plan_grown (catalogued : Catalogued home memo)
    (plan : Plan) : ∃ later, Grown home later memo plan (memo.insertPlan plan) := by
  induction plan generalizing home memo with
  | leaf op => exact insert_expression_grown catalogued (by simp [Plan.children])
  | unary op child ih =>
    obtain ⟨middle, below⟩ := ih catalogued
    obtain ⟨later, own⟩ := @insert_expression_grown (.unary op child) _ middle below.catalogued
      (by simpa [Plan.children] using below.held)
    refine ⟨later, ?_⟩
    rw [insertPlan, below.group]
    refine ⟨own.catalogued, own.held, own.group, fun other held => ?_⟩
    obtain ⟨inside, same⟩ := below.kept other held
    obtain ⟨still, again⟩ := own.kept other inside
    exact ⟨still, again.trans same⟩
  | join left right leftIh rightIh =>
    obtain ⟨middle, first⟩ := leftIh catalogued
    obtain ⟨next, second⟩ := rightIh first.catalogued
    obtain ⟨leftHeld, leftSame⟩ := second.kept left first.held
    obtain ⟨later, own⟩ := @insert_expression_grown (.join left right) _ next second.catalogued
      (by simpa [Plan.children] using ⟨leftHeld, second.held⟩)
    refine ⟨later, ?_⟩
    rw [insertPlan, first.group, second.group, ← leftSame]
    refine ⟨own.catalogued, own.held, own.group, fun other held => ?_⟩
    obtain ⟨inside, same⟩ := first.kept other held
    obtain ⟨again, sameAgain⟩ := second.kept other inside
    obtain ⟨still, sameStill⟩ := own.kept other again
    exact ⟨still, sameStill.trans (sameAgain.trans same)⟩

theorem record_node_eq_insert_plan (memo : Memo) (plan : Plan) :
    memo.recordNodeIntoGroup (.logical plan) none = memo.insertPlan plan := by
  cases plan <;> rfl

theorem initial_recorded (plan : Plan) :
    ∃ home, (initial plan).2 = home plan ∧
      ∀ node ∈ plan.nodes, Recorded home (initial plan).1 node ∧
        Fresh home (initial plan).1 node := by
  obtain ⟨home, grown⟩ := insert_plan_grown catalogued_empty plan
  rw [initial, record_node_eq_insert_plan]
  refine ⟨home, grown.group, fun node member => ?_⟩
  have held := held_nodes grown.catalogued grown.held node member
  exact ⟨recorded_of_held grown.catalogued held, fresh_of_catalogued grown.catalogued node⟩

end CsuDbms.CascadeModel

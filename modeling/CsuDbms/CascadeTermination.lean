import CsuDbms.CascadeMemo

/-!
# When the cascade optimizer comes to an end

`OptimizeInputs` waits for the winner of a child group by pushing a copy of
itself below the task for the child. The copy does not remember that it has
waited, so that below an operator without a rule the wait repeats for ever.
-/

namespace CsuDbms.CascadeModel

open TaskStack List Option Function Memo

def Plan.matchingRules (plan : Plan) : List Rule :=
  physicalImplementation.filter fun rule =>
    (plan.opType, plan.children.length) = rule.matchPattern

def Plan.hasRule (plan : Plan) : Bool := !plan.matchingRules.isEmpty

def Plan.ImplementedBy : Plan → PhysicalOp → Prop
  | .leaf (.tableGet tableId), .seqScan scanned => tableId = scanned
  | .leaf .calculate, .calculate => True
  | .leaf .insert, .insert => True
  | .unary .predicate _, .filter => True
  | .unary .groupBy _, .hashGroupBy => True
  | .unary .groupBy _, .scalarGroupBy => True
  | .unary .sort _, .orderBy => True
  | .unary .project _, .projection => True
  | .unary .delete _, .delete => True
  | .unary .update _, .update => True
  | .unary .explain _, .explain => True
  | .join _ _, .innerNlJoin => True
  | .join _ _, .innerHashJoin => True
  | _, _ => False

/-- The physical plan has an implementation in the place of every logical operator. -/
def Implements : Plan → PhysicalPlan → Prop
  | _, .null => False
  | .leaf leaf, .node op parts => (Plan.leaf leaf).ImplementedBy op ∧ parts = []
  | .unary unary child, .node op parts =>
    (Plan.unary unary child).ImplementedBy op ∧
      ∃ part, parts = [part] ∧ Implements child part
  | .join left right, .node op parts =>
    (Plan.join left right).ImplementedBy op ∧
      ∃ first second, parts = [first, second] ∧ Implements left first ∧
        Implements right second

variable {plan : Plan}

theorem valid_rules_of_clear {expr : GroupExpr} (contents : expr.contents = .logical plan)
    (length : expr.childGroups.length = plan.children.length)
    (clear : ∀ rule, expr.ruleMask rule = false) : expr.validRules = plan.matchingRules := by
  simp [GroupExpr.validRules, Plan.matchingRules, contents, length, clear, Node.opType]

theorem no_valid_rules {home : Plan → Nat} {memo : Memo} (recorded : Recorded home memo plan)
    (fresh : Fresh home memo plan) (lacks : plan.hasRule = false) :
    ∃ expr, (memo.groups (home plan)).logicalExpressions = [expr] ∧
      (memo.exprs expr).validRules = [] := by
  obtain ⟨expr, bound, contents, only⟩ := recorded.expr
  have placed := (recorded.placed expr bound contents).2
  refine ⟨expr, only, ?_⟩
  rw [valid_rules_of_clear contents (by rw [placed, length_map])
    (fresh.noRule expr bound contents)]
  simpa [Plan.hasRule] using lacks

theorem rule_of_has_rule (has : plan.hasRule = true) :
    ∃ rule op, plan.matchingRules = [rule] ∧
      rule.transform (.logical plan) = [.physical op plan.children] ∧
      (Node.physical op plan.children).source = some plan ∧ plan.ImplementedBy op := by
  cases plan with
  | leaf op =>
    cases op with
    | tableGet tableId => exact ⟨.getToSeqScan, .seqScan tableId, rfl, rfl, rfl, rfl⟩
    | calculate => exact ⟨.calcToPhysical, .calculate, rfl, rfl, rfl, trivial⟩
    | insert => exact ⟨.insertToPhysical, .insert, rfl, rfl, rfl, trivial⟩
  | unary op child =>
    cases op with
    | predicate => exact ⟨.predicateToPhysical, .filter, rfl, rfl, rfl, trivial⟩
    | project => exact ⟨.projectionToPhysical, .projection, rfl, rfl, rfl, trivial⟩
    | delete => exact ⟨.deleteToPhysical, .delete, rfl, rfl, rfl, trivial⟩
    | explain => exact ⟨.explainToPhysical, .explain, rfl, rfl, rfl, trivial⟩
    | groupBy | sort | update => cases has
  | join left right => cases has

structure Confined (home : Plan → Nat) (touched : List Plan) (before after : Memo) : Prop where
  count : before.exprCount ≤ after.exprCount
  same : ∀ expr < before.exprCount,
    (after.exprs expr).contents = (before.exprs expr).contents ∧
      (after.exprs expr).childGroups = (before.exprs expr).childGroups ∧
      (after.exprs expr).groupId = (before.exprs expr).groupId
  kept : ∀ expr < before.exprCount, (∀ plan ∈ touched, (before.exprs expr).groupId ≠ home plan) →
    after.exprs expr = before.exprs expr
  added : ∀ expr, before.exprCount ≤ expr → expr < after.exprCount →
    ∃ plan ∈ touched, (after.exprs expr).contents.source = some plan
  groups : ∀ group, (∀ plan ∈ touched, group ≠ home plan) →
    after.groups group = before.groups group
  logical : ∀ group, (after.groups group).logicalExpressions =
    (before.groups group).logicalExpressions

variable {home : Plan → Nat} {touched : List Plan}

theorem confined_trans {first second third : Memo}
    (front : Confined home touched first second) (back : Confined home touched second third) :
    Confined home touched first third where
  count := Nat.le_trans front.count back.count
  same := fun expr bound => by
    obtain ⟨contents, groups, group⟩ := back.same expr (Nat.lt_of_lt_of_le bound front.count)
    obtain ⟨contents', groups', group'⟩ := front.same expr bound
    exact ⟨contents.trans contents', groups.trans groups', group.trans group'⟩
  kept := fun expr bound apart => by
    have earlier := front.kept expr bound apart
    rw [← earlier]
    exact back.kept expr (Nat.lt_of_lt_of_le bound front.count) (by rwa [earlier])
  added := fun expr lower upper => by
    by_cases middle : expr < second.exprCount
    · obtain ⟨plan, member, source⟩ := front.added expr lower middle
      exact ⟨plan, member, by rwa [(back.same expr middle).1]⟩
    · exact back.added expr (Nat.le_of_not_lt middle) upper
  groups := fun group apart => (back.groups group apart).trans (front.groups group apart)
  logical := fun group => (back.logical group).trans (front.logical group)

variable {before after : Memo}

theorem confined_mono {more : List Plan}
    (subset : touched ⊆ more) (confined : Confined home touched before after) :
    Confined home more before after where
  count := confined.count
  same := confined.same
  kept := fun expr bound apart =>
    confined.kept expr bound fun plan member => apart plan (subset member)
  added := fun expr lower upper =>
    (confined.added expr lower upper).imp fun _ found => ⟨subset found.1, found.2⟩
  groups := fun group apart => confined.groups group fun plan member => apart plan (subset member)
  logical := confined.logical

theorem recorded_confined (confined : Confined home touched before after)
    (recorded : Recorded home before plan) : Recorded home after plan := by
  obtain ⟨expr, bound, contents, only⟩ := recorded.expr
  refine ⟨⟨expr, Nat.lt_of_lt_of_le bound confined.count, ?_, ?_⟩, ?_, recorded.below⟩
  · rw [(confined.same expr bound).1, contents]
  · rw [confined.logical, only]
  · intro other inside logical
    by_cases old : other < before.exprCount
    · obtain ⟨contents, groups, group⟩ := confined.same other old
      rw [groups, group]
      exact recorded.placed other old (contents.symm.trans logical)
    · obtain ⟨_, -, source⟩ := confined.added other (Nat.le_of_not_lt old) inside
      rw [logical] at source
      cases source

theorem fresh_confined (confined : Confined home touched before after)
    (recorded : Recorded home before plan)
    (apart : ∀ other ∈ touched, home plan ≠ home other) (fresh : Fresh home before plan) :
    Fresh home after plan := by
  have group := confined.groups (home plan) apart
  refine ⟨by rw [group, fresh.noWinner], by rw [group, fresh.unexplored],
    by rw [group, fresh.noPhysical], ?_, ?_⟩
  · intro expr inside source
    by_cases old : expr < before.exprCount
    · rw [(confined.same expr old).1] at source
      exact fresh.notImplemented expr old source
    · obtain ⟨other, member, implemented⟩ := confined.added expr (Nat.le_of_not_lt old) inside
      rw [source] at implemented
      exact apart other member (congrArg home (some.inj implemented))
  · intro expr inside logical
    by_cases old : expr < before.exprCount
    · have contents := (confined.same expr old).1.symm.trans logical
      have placed := (recorded.placed expr old contents).1
      rw [confined.kept expr old fun other member => placed ▸ apart other member]
      exact fresh.noRule expr old contents
    · obtain ⟨_, -, source⟩ := confined.added expr (Nat.le_of_not_lt old) inside
      rw [logical] at source
      cases source

variable {memo : Memo}

theorem confined_set_group {value : Group}
    (logical : value.logicalExpressions = (memo.groups (home plan)).logicalExpressions) :
    Confined home [plan] memo (memo.setGroup (home plan) value) where
  count := Nat.le_refl _
  same := fun _ _ => ⟨rfl, rfl, rfl⟩
  kept := fun _ _ _ => rfl
  added := fun _ lower upper => absurd upper (Nat.not_lt_of_le lower)
  groups := fun _ apart => set_group_other value (apart plan (.head _))
  logical := fun group => by
    by_cases own : group = home plan
    · rw [own, set_group_self, logical]
    · rw [set_group_other _ own]

theorem confined_set_expr {expr : Nat}
    {value : GroupExpr} (own : (memo.exprs expr).groupId = home plan)
    (same : value.contents = (memo.exprs expr).contents ∧
      value.childGroups = (memo.exprs expr).childGroups ∧
      value.groupId = (memo.exprs expr).groupId) :
    Confined home [plan] memo (memo.setExpr expr value) where
  count := Nat.le_refl _
  same := fun other _ => by
    by_cases changed : other = expr
    · rwa [changed, set_expr_self]
    · rw [set_expr_other _ changed]
      exact ⟨rfl, rfl, rfl⟩
  kept := fun other _ apart => by
    refine set_expr_other value ?_
    rintro rfl
    exact apart plan (.head _) own
  added := fun _ lower upper => absurd upper (Nat.not_lt_of_le lower)
  groups := fun _ _ => rfl
  logical := fun _ => rfl

theorem confined_add_expression {op : PhysicalOp} {children : List Plan} (childGroups : List Nat)
    (source : (Node.physical op children).source = some plan) :
    Confined home [plan] memo
      (memo.addExpression (.physical op children) childGroups (some (home plan))) where
  count := Nat.le_succ _
  same := fun expr bound => by
    rw [add_expression_old _ _ _ (Nat.ne_of_lt bound)]
    exact ⟨rfl, rfl, rfl⟩
  kept := fun expr bound _ => add_expression_old _ _ _ (Nat.ne_of_lt bound)
  added := fun expr lower upper => by
    obtain rfl : expr = memo.exprCount := Nat.le_antisymm (Nat.le_of_lt_succ upper) lower
    exact ⟨plan, .head _, by rw [add_expression_new, source]⟩
  groups := fun group apart => add_expression_group _ _ _ (apart plan (.head _))
  logical := fun group => by
    by_cases own : group = home plan
    · simp [own, addExpression, Group.addExpr, Node.isPhysical]
    · rw [add_expression_group _ _ _ own]

theorem record_physical {op : PhysicalOp} (recorded : ∀ node ∈ plan.nodes, Recorded home memo node)
    (source : (Node.physical op plan.children).source = some plan)
    (missing : ∀ expr < memo.exprCount, (memo.exprs expr).contents.source ≠ some plan) :
    memo.recordNodeIntoGroup (.physical op plan.children) (some (home plan)) =
      ⟨memo.addExpression (.physical op plan.children) (plan.children.map home)
        (some (home plan)), memo.exprCount, true⟩ := by
  have children : memo.makeGroupExpression plan.children = (memo, plan.children.map home) :=
    make_group_expression_recorded plan.children fun child member node inside =>
      recorded node (nodes_of_child member inside)
  have absent :
      memo.find (.physical op plan.children) (plan.children.map home) = none := by
    cases found : memo.find (.physical op plan.children) (plan.children.map home) with
    | none => rfl
    | some expr =>
      obtain ⟨bound, contents, -⟩ := find_some found
      exact absurd (contents ▸ source) (missing expr bound)
  simp only [recordNodeIntoGroup, Node.generalChildren, children, insertExpression,
    absent]

variable (calculateCost : Memo → Nat → Int)

theorem opens
    (recorded : ∀ node ∈ plan.nodes, Recorded home memo node) (fresh : Fresh home memo plan)
    (has : plan.hasRule = true) :
    ∃ after op, (∀ rest,
        work (perform calculateCost) 3 (memo, .optimizeGroup (home plan) :: rest) =
          (after, [.newInputs memo.exprCount] ++ rest)) ∧
      Confined home [plan] memo after ∧ memo.exprCount < after.exprCount ∧
      after.exprs memo.exprCount =
        ⟨.physical op plan.children, plan.children.map home, home plan, fun _ => false, none⟩ ∧
      plan.ImplementedBy op ∧ (after.groups (home plan)).winner = none := by
  obtain ⟨rule, op, rules, transformed, source, implemented⟩ := rule_of_has_rule has
  have own := recorded plan (self_mem_nodes plan)
  obtain ⟨expr, bound, contents, only⟩ := own.expr
  obtain ⟨placed, children⟩ := own.placed expr bound contents
  have clear := fresh.noRule expr bound contents
  -- the group is marked as explored
  let explored := memo.setGroup (home plan) { memo.groups (home plan) with hasExplored := true }
  have first : perform calculateCost memo (.optimizeGroup (home plan)) =
      (explored, [.optimizeExpression expr]) := by
    simp [perform, performOptimizeGroup, fresh.noWinner, fresh.unexplored,
      fresh.noPhysical, only, explored]
  have exploredConfined : Confined home [plan] memo explored := confined_set_group rfl
  have second : perform calculateCost explored (.optimizeExpression expr) =
      (explored, [.applyRule expr rule]) := by
    have valid : (memo.exprs expr).validRules = [rule] := by
      rw [valid_rules_of_clear contents (by rw [children, length_map]) clear, rules]
    simp [perform, performOptimizeExpression, explored, valid]
  -- the physical expression joins the group
  let added := explored.addExpression (.physical op plan.children) (plan.children.map home)
    (some (home plan))
  have record : explored.recordNodeIntoGroup (.physical op plan.children) (some (home plan)) =
      ⟨added, memo.exprCount, true⟩ :=
    record_physical (fun node member => recorded_confined exploredConfined (recorded node member))
      source fresh.notImplemented
  have addedConfined : Confined home [plan] explored added := confined_add_expression _ source
  have exprAdded : added.exprs expr = memo.exprs expr :=
    add_expression_old _ _ _ (Nat.ne_of_lt bound)
  let after := added.setExpr expr
    { memo.exprs expr with ruleMask := update (memo.exprs expr).ruleMask rule true }
  have third : perform calculateCost explored (.applyRule expr rule) =
      (after, [.newInputs memo.exprCount]) := by
    have all : explored.recordAll (home plan) (rule.transform (.logical plan)) =
        (added, [.newInputs memo.exprCount]) := by
      simp [transformed, recordAll, record, Node.isPhysical]
    simp [perform, performApplyRule, explored, clear, contents, placed, all, exprAdded, after]
  have afterConfined : Confined home [plan] added after :=
    confined_set_expr (by rw [exprAdded, placed]) (by simp [exprAdded])
  refine ⟨after, op, fun rest => ?_,
    confined_trans (confined_trans exploredConfined addedConfined) afterConfined,
    Nat.lt_succ_self _, ?_, implemented, ?_⟩
  · simp only [work, first, second, third, cons_append, nil_append]
  · exact (set_expr_other _ (Nat.ne_of_gt bound)).trans (add_expression_new ..)
  · simp [after, added, explored, addExpression, Group.addExpr, Node.isPhysical,
      fresh.noWinner]

theorem closes {expr : Nat} {op : PhysicalOp} {total current : Int}
    (contents : (memo.exprs expr).contents = .physical op plan.children)
    (childGroups : (memo.exprs expr).childGroups = plan.children.map home)
    (own : (memo.exprs expr).groupId = home plan)
    (noWinner : (memo.groups (home plan)).winner = none)
    (winners : ∀ child ∈ plan.children, (memo.groups (home child)).winner.isSome = true) :
    ∃ after cost, perform calculateCost memo (.optimizeInputs expr total current (-1)) =
        (after, []) ∧
      Confined home [plan] memo after ∧
      (after.groups (home plan)).winner = some (cost, expr) ∧
      (after.exprs expr).contents = .physical op plan.children ∧
      (after.exprs expr).childGroups = plan.children.map home := by
  have finishes : ∀ groups : List Nat, (∀ group ∈ groups, (memo.groups group).winner.isSome) →
      ∀ total index, ∃ sum, memo.inputsLoop (-1) groups total index = .finished sum := by
    intro groups
    induction groups with
    | nil => exact fun _ total index => ⟨total, rfl⟩
    | cons group rest ih =>
      intro all total index
      obtain ⟨best, found⟩ := isSome_iff_exists.mp (all group (.head _))
      obtain ⟨sum, loop⟩ := ih (fun other member => all other (.tail _ member))
        (total + (memo.exprs best.2).lowestCost.getD 0) (index + 1)
      exact ⟨sum, by simp only [inputsLoop, found, loop]⟩
  have loop : ∃ sum, memo.inputsLoop (-1)
      ((memo.exprs expr).childGroups.drop (if current = -1 then 0 else current).toNat)
      (if current = -1 then calculateCost memo expr else total)
      (if current = -1 then 0 else current) = .finished sum := by
    refine finishes _ (fun group member => ?_) _ _
    rw [childGroups] at member
    obtain ⟨child, inside, rfl⟩ := mem_map.mp (mem_of_mem_drop member)
    exact winners child inside
  obtain ⟨sum, loop⟩ := loop
  let costed := memo.setExpr expr ((memo.exprs expr).setLocalCost sum)
  have localSame : ((memo.exprs expr).setLocalCost sum).contents = (memo.exprs expr).contents ∧
      ((memo.exprs expr).setLocalCost sum).childGroups = (memo.exprs expr).childGroups ∧
      ((memo.exprs expr).setLocalCost sum).groupId = (memo.exprs expr).groupId := by
    unfold GroupExpr.setLocalCost
    split
    · split <;> exact ⟨rfl, rfl, rfl⟩
    · exact ⟨rfl, rfl, rfl⟩
  have costedConfined : Confined home [plan] memo costed :=
    confined_set_expr own localSame
  refine ⟨costed.setGroup (home plan) ((memo.groups (home plan)).setExprCost expr sum), sum,
    ?_, confined_trans costedConfined (confined_set_group ?_), ?_, ?_, ?_⟩
  · simp only [perform, performOptimizeInputs, loop, own, costed]
  · simp [Group.setExprCost, noWinner, costed]
  · simp [Group.setExprCost, noWinner]
  · simp [costed, localSame.1, contents]
  · simp [costed, localSame.2.1, childGroups]

def Chosen (home : Plan → Nat) (memo : Memo) (plan : Plan) : Prop :=
  ∃ cost expr op, expr < memo.exprCount ∧
    (memo.groups (home plan)).winner = some (cost, expr) ∧
    (memo.exprs expr).contents = .physical op plan.children ∧
    (memo.exprs expr).childGroups = plan.children.map home ∧ plan.ImplementedBy op

theorem chosen_confined (confined : Confined home touched before after)
    (apart : ∀ other ∈ touched, home plan ≠ home other) (chosen : Chosen home before plan) :
    Chosen home after plan := by
  obtain ⟨cost, expr, op, bound, winner, contents, childGroups, implemented⟩ := chosen
  obtain ⟨sameContents, sameGroups, -⟩ := confined.same expr bound
  exact ⟨cost, expr, op, Nat.lt_of_lt_of_le bound confined.count,
    by rw [confined.groups _ apart, winner], by rw [sameContents, contents],
    by rw [sameGroups, childGroups], implemented⟩

theorem home_le (recorded : ∀ node ∈ plan.nodes, Recorded home memo node) :
    ∀ node ∈ plan.nodes, home node ≤ home plan := by
  suffices ∀ node ∈ plan.nodes, node.nodes ⊆ plan.nodes ∧ home node ≤ home plan from
    fun node member => (this node member).2
  refine forall_nodes ?_ ⟨Subset.refl _, Nat.le_refl _⟩
  intro other ⟨inside, lower⟩ child member
  have below := (recorded other (inside (self_mem_nodes other))).below child member
  exact ⟨Subset.trans (nodes_of_child member) inside, by omega⟩

section

variable {op : UnaryOp} {child : Plan}
  (recorded : ∀ node ∈ (Plan.unary op child).nodes, Recorded home memo node)
include recorded

theorem home_ne_below :
    ∀ node ∈ child.nodes, home node ≠ home (.unary op child) := by
  intro node inside
  have below := (recorded _ (.head _)).below child (.head _)
  have := home_le (fun other within => recorded other (.tail _ within)) node inside
  omega

theorem untouched_below (fresh : ∀ node ∈ (Plan.unary op child).nodes, Fresh home memo node)
    (confined : Confined home [.unary op child] memo after) :
    (∀ node ∈ child.nodes, Recorded home after node) ∧
      ∀ node ∈ child.nodes, Fresh home after node := by
  refine ⟨fun node inside => recorded_confined confined (recorded node (.tail _ inside)), ?_⟩
  intro node inside
  exact fresh_confined confined (recorded node (.tail _ inside))
    (forall_mem_singleton.mpr (home_ne_below recorded node inside)) (fresh node (.tail _ inside))

end

theorem waits {child : Plan} {expr : Nat}
    (childGroups : (memo.exprs expr).childGroups = [home child])
    (noWinner : (memo.groups (home child)).winner = none) :
    perform calculateCost memo (.newInputs expr) =
      (memo, [.optimizeGroup (home child), .copyInputs expr (calculateCost memo expr) 0]) := by
  simp [perform, Task.newInputs, performOptimizeInputs, childGroups, inputsLoop,
    noWinner]

theorem completes_of_rules (plan : Plan) (recorded : ∀ node ∈ plan.nodes, Recorded home memo node)
    (fresh : ∀ node ∈ plan.nodes, Fresh home memo node)
    (rules : ∀ node ∈ plan.nodes, node.hasRule = true) :
    ∃ after, Completes (perform calculateCost) memo [.optimizeGroup (home plan)] after ∧
      Confined home plan.nodes memo after ∧ ∀ node ∈ plan.nodes, Chosen home after node := by
  induction plan generalizing memo with
  | leaf leaf =>
    obtain ⟨opened, op, opening, confined, new, expr, implemented, noWinner⟩ :=
      opens calculateCost recorded (fresh _ (.head _)) (rules _ (.head _))
    obtain ⟨after, cost, closing, closed, winner, contents, childGroups⟩ :=
      @closes (.leaf leaf) home opened calculateCost memo.exprCount op 0 (-1)
        (by rw [expr]) (by rw [expr]) (by rw [expr]) noWinner (by simp [Plan.children])
    refine ⟨after,
      completes_of_work 3 opening (completes_of_perform closing (completes_nil after)),
      confined_trans confined closed, forall_mem_singleton.mpr ?_⟩
    exact ⟨cost, memo.exprCount, op, Nat.lt_of_lt_of_le new closed.count, winner, contents,
      childGroups, implemented⟩
  | unary unary child ih =>
    obtain ⟨opened, op, opening, confined, new, expr, implemented, noWinner⟩ :=
      opens calculateCost recorded (fresh _ (.head _)) (rules _ (.head _))
    have apart := home_ne_below recorded
    obtain ⟨recordedBelow, freshBelow⟩ := untouched_below recorded fresh confined
    have wait := waits calculateCost (by rw [expr]; rfl)
      (freshBelow child (self_mem_nodes child)).noWinner
    obtain ⟨middle, completes, confinedBelow, chosenBelow⟩ := ih recordedBelow freshBelow
      fun node inside => rules node (.tail _ inside)
    -- the tasks for the child leave the expression and the group of the parent alone
    have exprKept : middle.exprs memo.exprCount = opened.exprs memo.exprCount := by
      refine confinedBelow.kept _ new fun node inside => ?_
      rw [expr]
      exact (apart node inside).symm
    have groupKept := confinedBelow.groups (home (.unary unary child))
      fun node inside => (apart node inside).symm
    obtain ⟨_, _, _, _, childWinner, _⟩ := chosenBelow child (self_mem_nodes child)
    obtain ⟨after, cost, closing, closed, winner, contents, childGroups⟩ :=
      @closes (.unary unary child) home middle calculateCost memo.exprCount op
        (calculateCost opened memo.exprCount) 0 (by rw [exprKept, expr])
        (by rw [exprKept, expr]) (by rw [exprKept, expr]) (by rw [groupKept, noWinner])
        (by simp [Plan.children, childWinner])
    have wholeConfined : Confined home (Plan.unary unary child).nodes memo after := by
      refine confined_trans (confined_trans (confined_mono ?_ confined)
        (confined_mono ?_ confinedBelow)) (confined_mono ?_ closed)
      · exact cons_subset_cons _ (nil_subset _)
      · exact subset_cons_self _ _
      · exact cons_subset_cons _ (nil_subset _)
    refine ⟨after, completes_of_work 3 opening (completes_of_perform wait
      (completes_append completes (completes_of_perform closing (completes_nil after)))),
      wholeConfined, forall_mem_cons.mpr ⟨?_, fun node inside => ?_⟩⟩
    · refine ⟨cost, memo.exprCount, op, ?_, winner, contents, childGroups, implemented⟩
      exact Nat.lt_of_lt_of_le new (Nat.le_trans confinedBelow.count closed.count)
    · exact chosen_confined closed (forall_mem_singleton.mpr (apart node inside))
        (chosenBelow node inside)
  | join left right => cases rules _ (.head _)

theorem choose_best_plan_implements (plan : Plan)
    (recorded : ∀ node ∈ plan.nodes, Recorded home memo node)
    (rules : ∀ node ∈ plan.nodes, node.hasRule = true)
    (chosen : ∀ node ∈ plan.nodes, Chosen home memo node) {depth : Nat}
    (deep : home plan < depth) : Implements plan (memo.chooseBestPlan depth (home plan)) := by
  induction plan generalizing depth with
  | leaf leaf =>
    obtain ⟨cost, expr, op, -, winner, contents, childGroups, implemented⟩ :=
      chosen _ (.head _)
    obtain ⟨depth, rfl⟩ := Nat.exists_eq_succ_of_ne_zero (Nat.ne_of_gt (Nat.zero_lt_of_lt deep))
    simp [chooseBestPlan, winner, contents, childGroups, Implements, implemented,
      Plan.children]
  | unary unary child ih =>
    obtain ⟨cost, expr, op, -, winner, contents, childGroups, implemented⟩ :=
      chosen _ (.head _)
    have below := (recorded _ (.head _)).below child (.head _)
    obtain ⟨depth, rfl⟩ := Nat.exists_eq_succ_of_ne_zero (Nat.ne_of_gt (Nat.zero_lt_of_lt deep))
    have inner := ih (fun node inside => recorded node (.tail _ inside))
      (fun node inside => rules node (.tail _ inside))
      (fun node inside => chosen node (.tail _ inside)) (show home child < depth by omega)
    simpa [chooseBestPlan, winner, contents, childGroups, Implements, implemented,
      Plan.children] using inner
  | join left right => cases rules _ (.head _)

def Waiting (state : Memo × List Task) : Prop :=
  ∃ expr total childGroup logical rest,
    (state.1.exprs expr).childGroups = [childGroup] ∧
    (state.1.groups childGroup).winner = none ∧
    (state.1.groups childGroup).physicalExpressions = [] ∧
    (state.1.groups childGroup).logicalExpressions = [logical] ∧
    (state.1.exprs logical).validRules = [] ∧
    (state.2 = .optimizeGroup childGroup :: .copyInputs expr total 0 :: rest ∨
      state.2 = .optimizeExpression logical :: .copyInputs expr total 0 :: rest ∨
      state.2 = .copyInputs expr total 0 :: rest)

theorem not_waiting_empty (memo : Memo) : ¬ Waiting (memo, []) := by
  rintro ⟨expr, total, childGroup, logical, rest, -, -, -, -, -, stack⟩
  rcases stack with stack | stack | stack <;> cases stack

theorem waiting_kept (memo : Memo) (task : Task) (rest : List Task)
    (waiting : Waiting (memo, task :: rest)) :
    Waiting ((perform calculateCost memo task).1,
      (perform calculateCost memo task).2 ++ rest) := by
  obtain ⟨expr, total, childGroup, logical, below, child, winner, physical, only, rules,
    stack⟩ := waiting
  dsimp only at child winner physical only rules stack
  rcases stack with stack | stack | stack <;> obtain ⟨rfl, rfl⟩ := cons.inj stack
  · refine ⟨expr, total, childGroup, logical, below, ?_⟩
    cases explored : (memo.groups childGroup).hasExplored with
    | true | false =>
      simp [perform, performOptimizeGroup, winner, physical, only, explored, child, rules]
  · refine ⟨expr, total, childGroup, logical, below, ?_⟩
    simp [perform, performOptimizeExpression, winner, physical, only, child, rules]
  · refine ⟨expr, total, childGroup, logical, rest, ?_⟩
    simp [perform, Task.copyInputs, performOptimizeInputs, inputsLoop, winner,
      physical, only, child, rules]

theorem comes_to_wait (plan : Plan) (recorded : ∀ node ∈ plan.nodes, Recorded home memo node)
    (fresh : ∀ node ∈ plan.nodes, Fresh home memo node) (has : plan.hasRule = true)
    (lacks : ∃ node ∈ plan.nodes, node.hasRule = false) (rest : List Task) :
    ComesTo (perform calculateCost) Waiting (memo, .optimizeGroup (home plan) :: rest) := by
  induction plan generalizing memo rest with
  | leaf leaf =>
    obtain ⟨node, member, without⟩ := lacks
    obtain rfl := mem_singleton.mp member
    rw [has] at without
    cases without
  | unary unary child ih =>
    obtain ⟨opened, op, opening, confined, new, expr, -, -⟩ :=
      opens calculateCost recorded (fresh _ (.head _)) has
    obtain ⟨recordedBelow, freshBelow⟩ := untouched_below recorded fresh confined
    have childFresh := freshBelow child (self_mem_nodes child)
    have wait := waits calculateCost (by rw [expr]; rfl) childFresh.noWinner
    refine comes_to_of_work 3 ?_
    rw [opening]
    refine comes_to_of_work 1 ?_
    simp only [work, cons_append, nil_append, wait]
    cases childHas : child.hasRule with
    | true =>
      refine ih recordedBelow freshBelow childHas ?_ _
      obtain ⟨node, member, without⟩ := lacks
      rcases mem_cons.mp member with rfl | inside
      · rw [has] at without
        cases without
      · exact ⟨node, inside, without⟩
    | false =>
      obtain ⟨logical, only, rules⟩ :=
        no_valid_rules (recordedBelow child (self_mem_nodes child)) childFresh childHas
      exact ⟨0, memo.exprCount, calculateCost opened memo.exprCount, home child, logical,
        rest, by simp [work, expr, Plan.children], childFresh.noWinner,
        childFresh.noPhysical, only, rules, .inl rfl⟩
  | join left right => cases has

theorem optimize_none (has : plan.hasRule = true)
    (lacks : ∃ node ∈ plan.nodes, node.hasRule = false) (count : Nat) :
    optimize calculateCost count plan = none := by
  obtain ⟨home, root, untouched⟩ := initial_recorded plan
  have waits := comes_to_wait calculateCost plan (fun node member => (untouched node member).1)
    (fun node member => (untouched node member).2) has lacks []
  have busy := never_empty_of_comes_to not_waiting_empty (waiting_kept calculateCost) waits count
  rw [← root] at busy
  simp [optimize, busy]

theorem optimize_root_without_rule (lacks : plan.hasRule = false) :
    optimize calculateCost 2 plan = some .null := by
  obtain ⟨home, root, untouched⟩ := initial_recorded plan
  obtain ⟨recorded, fresh⟩ := untouched plan (self_mem_nodes plan)
  obtain ⟨expr, only, rules⟩ := no_valid_rules recorded fresh lacks
  simp [optimize, root, work, perform, performOptimizeGroup, fresh.noWinner,
    fresh.unexplored, fresh.noPhysical, only, performOptimizeExpression, rules,
    chooseBestPlan]

theorem optimize_of_rules (rules : ∀ node ∈ plan.nodes, node.hasRule = true) :
    ∃ count physical, optimize calculateCost count plan = some physical ∧
      Implements plan physical := by
  obtain ⟨home, root, untouched⟩ := initial_recorded plan
  have recorded := fun node member => (untouched node member).1
  obtain ⟨after, ⟨count, completes⟩, confined, chosen⟩ := completes_of_rules calculateCost plan
    recorded (fun node member => (untouched node member).2) rules
  have worked := completes []
  rw [append_nil] at worked
  refine ⟨count, after.chooseBestPlan (home plan + 1) (home plan), ?_,
    choose_best_plan_implements plan
      (fun node member => recorded_confined confined (recorded node member)) rules chosen
      (Nat.lt_succ_self _)⟩
  simp [optimize, worked, root]

/-- The task stack becomes empty, with a null pointer or a whole physical plan for the result,
exactly if the root has no rule or every operator has one. -/
theorem optimize_ends_in_null_or_plan_iff (plan : Plan) :
    (∃ count physical, optimize calculateCost count plan = some physical ∧
        (physical = .null ∨ Implements plan physical)) ↔
      plan.hasRule = false ∨ ∀ node ∈ plan.nodes, node.hasRule = true := by
  constructor
  · rintro ⟨count, physical, ended, -⟩
    cases has : plan.hasRule with
    | false => exact .inl rfl
    | true =>
      refine .inr fun node member => ?_
      cases lacks : node.hasRule with
      | true => rfl
      | false =>
        rw [optimize_none calculateCost has ⟨node, member, lacks⟩ count] at ended
        cases ended
  · rintro (lacks | rules)
    · exact ⟨2, .null, optimize_root_without_rule calculateCost lacks, .inl rfl⟩
    · obtain ⟨count, physical, ended, implements⟩ := optimize_of_rules calculateCost rules
      exact ⟨count, physical, ended, .inr implements⟩

/-- `SELECT * FROM t ORDER BY a`: a projection above a sort, for which there is no rule. -/
def selectOrderBy : Plan := .unary .project (.unary .sort (.leaf (.tableGet 1)))

theorem select_order_by_never_ends :
    ¬ ∃ count physical, optimize (fun _ _ => 0) count selectOrderBy = some physical ∧
      (physical = .null ∨ Implements selectOrderBy physical) := by
  rintro ⟨count, physical, ended, -⟩
  have never := optimize_none (fun _ _ => 0) (show selectOrderBy.hasRule = true by decide)
    ⟨.unary .sort (.leaf (.tableGet 1)), by decide, by decide⟩ count
  rw [never] at ended
  cases ended

end CsuDbms.CascadeModel

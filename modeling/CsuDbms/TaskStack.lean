import Mathlib.Tactic.TypeStar

/-!
# Task stacks

A worker pops the task on top of a stack and performs it: the memory changes
and further tasks are pushed. Two things are asked of such a worker, whether a
list of tasks is worked off and whether the stack is never empty again. Nothing
here names a particular worker.
-/

namespace CsuDbms.TaskStack

variable {Memory Task : Type*}

/-- Work through at most `count` tasks. `perform` returns the tasks it pushes, the top first. -/
def work (perform : Memory → Task → Memory × List Task) :
    Nat → Memory × List Task → Memory × List Task
  | 0, state => state
  | _ + 1, (memory, []) => (memory, [])
  | count + 1, (memory, task :: rest) =>
    work perform count ((perform memory task).1, (perform memory task).2 ++ rest)

variable {perform : Memory → Task → Memory × List Task}

theorem work_add (first second : Nat) (state : Memory × List Task) :
    work perform (first + second) state = work perform second (work perform first state) := by
  induction first generalizing state with
  | zero => simp [work]
  | succ first ih =>
    obtain ⟨memory, tasks⟩ := state
    rw [Nat.add_right_comm]
    cases tasks with
    | nil =>
      cases second with
      | zero => rfl
      | succ second => simp [work]
    | cons task rest => exact ih _

/-- The tasks are worked off, whatever lies below them on the stack. -/
def Completes (perform : Memory → Task → Memory × List Task) (before : Memory)
    (tasks : List Task) (after : Memory) : Prop :=
  ∃ count, ∀ rest, work perform count (before, tasks ++ rest) = (after, rest)

theorem completes_nil (memory : Memory) : Completes perform memory [] memory :=
  ⟨0, fun _ => rfl⟩

variable {before middle after : Memory}

theorem completes_append {tasks more : List Task} (first : Completes perform before tasks middle)
    (second : Completes perform middle more after) :
    Completes perform before (tasks ++ more) after := by
  obtain ⟨count, first⟩ := first
  obtain ⟨others, second⟩ := second
  refine ⟨count + others, fun rest => ?_⟩
  rw [work_add, List.append_assoc, first, second]

theorem completes_of_work {task : Task} {others : List Task} (count : Nat)
    (turned : ∀ rest, work perform count (before, task :: rest) = (middle, others ++ rest))
    (later : Completes perform middle others after) : Completes perform before [task] after := by
  obtain ⟨second, later⟩ := later
  refine ⟨count + second, fun rest => ?_⟩
  rw [work_add, List.cons_append, List.nil_append, turned, later]

theorem completes_of_perform {task : Task} {pushed : List Task}
    (performed : perform before task = (middle, pushed))
    (later : Completes perform middle pushed after) : Completes perform before [task] after :=
  completes_of_work 1 (fun rest => by simp [work, performed]) later

/-- The stack goes through a state in which the predicate holds. -/
def ComesTo (perform : Memory → Task → Memory × List Task)
    (goal : Memory × List Task → Prop) (state : Memory × List Task) : Prop :=
  ∃ count, goal (work perform count state)

theorem comes_to_of_work {goal : Memory × List Task → Prop} {state : Memory × List Task}
    (count : Nat) (later : ComesTo perform goal (work perform count state)) :
    ComesTo perform goal state := by
  obtain ⟨second, reached⟩ := later
  exact ⟨count + second, by rwa [work_add]⟩

/-- A property that every task keeps and that no empty stack has, once reached, keeps the
stack from ever being empty. -/
theorem never_empty_of_comes_to {goal : Memory × List Task → Prop}
    {state : Memory × List Task}
    (nonempty : ∀ memory, ¬ goal (memory, []))
    (kept : ∀ memory task rest, goal (memory, task :: rest) →
      goal ((perform memory task).1, (perform memory task).2 ++ rest))
    (reached : ComesTo perform goal state) (count : Nat) :
    (work perform count state).2 ≠ [] := by
  have stays : ∀ count state, goal state → goal (work perform count state) := by
    intro count
    induction count with
    | zero => exact fun _ holds => holds
    | succ count ih =>
      rintro ⟨memory, tasks⟩ holds
      cases tasks with
      | nil => exact absurd holds (nonempty memory)
      | cons task rest => exact ih _ (kept memory task rest holds)
  have idle : ∀ count memory, work perform count (memory, []) = (memory, []) := by
    intro count memory
    cases count <;> rfl
  obtain ⟨first, holds⟩ := reached
  intro empty
  -- were the stack empty after `count` tasks, it would still be after `count + first`
  have later : goal (work perform (count + first) state) := by
    rw [Nat.add_comm, work_add]
    exact stays count _ holds
  rw [work_add, ← Prod.eta (work perform count state), empty, idle] at later
  exact nonempty _ later

end CsuDbms.TaskStack

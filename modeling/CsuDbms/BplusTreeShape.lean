import CsuDbms.BplusTreeLevels

/-!
# The levels above a row of nodes

The functions of the tree climb from a node to its parent, so their invariant speaks
of the levels above a row of entries: these levels are a tower over the row, the
pages hold it, and no two nodes share a page. The row itself is the leaves at first
and one level of internal nodes after each step up.
-/

namespace CsuDbms.BplusTreeModel

open BufferPoolHeaderModel List SortedSearch

variable {Key Rid : Type}

namespace Mtr

def bodies (mtr : Mtr Key Rid) : Nat → Body Key Rid := fun page => (mtr.node page).body

def parents (mtr : Mtr Key Rid) : Nat → Option Nat := fun page => (mtr.node page).parent

def Allocated (mtr : Mtr Key Rid) (page : Nat) : Prop :=
  mtr.tree.header.checkPageNum page = true

end Mtr

theorem pagesOf_cons (level : List (Inner Key)) (above : List (List (Inner Key))) :
    pagesOf (level :: above) = level.map Inner.page ++ pagesOf above := by
  simp [pagesOf]

theorem map_entry_snd (level : List (Inner Key)) :
    (level.map Inner.entry).map Prod.snd = level.map Inner.page := by
  simp [Inner.entry]

variable {levels : List (List (Inner Key))} {base : List (Key × Nat)}

theorem tower_top_mem {key : Key} {root : Nat} (tower : Tower base levels [(key, root)])
    (some : levels ≠ []) :
    root ∈ pagesOf levels := by
  induction levels generalizing base with
  | nil => exact absurd rfl some
  | cons level above ih =>
    rw [pagesOf_cons, mem_append]
    cases above with
    | nil =>
      have entries : level.map Inner.entry = [(key, root)] := tower.2
      refine .inl ?_
      rw [← map_entry_snd, entries]
      simp
    | cons next above => exact .inr (ih tower.2 (by simp))

theorem tower_nil {top : List (Key × Nat)} (tower : Tower [] levels top) : top = [] := by
  induction levels with
  | nil => exact tower.symm
  | cons level higher ih =>
    obtain ⟨items, above⟩ := tower
    have none : level = [] := by
      cases level with
      | nil => rfl
      | cons inner level => simp [Inner.items] at items
    subst none
    exact ih above

theorem length_le_pagesOf {entry : Key × Nat} (tower : Tower base levels [entry]) :
    levels.length ≤ (pagesOf levels).length := by
  induction levels generalizing base with
  | nil => simp
  | cons level higher ih =>
    have some : level ≠ [] := by
      rintro rfl
      exact absurd (tower_nil tower.2) (by simp)
    have more := ih tower.2
    have one := length_pos_of_ne_nil some
    rw [pagesOf_cons, length_append, length_map, length_cons]
    omega

@[mk_iff]
structure InnerSized (config : Config Key) (root : Nat) (inner : Inner Key) : Prop where
  most : inner.items.length ≤ config.internalMaxSize
  two : inner.page = root → 2 ≤ inner.items.length
  least : inner.page ≠ root → config.minSize .internal ≤ inner.items.length

section Upper

variable [OrderedKeys Key]

@[mk_iff]
structure Upper (config : Config Key) (mtr : Mtr Key Rid) (base : List (Key × Nat))
    (levels : List (List (Inner Key))) (root : Nat) : Prop where
  tower : Tower base levels [(config.zeroKey, root)]
  sorted : SepSorted base
  stored : LevelsStored mtr.bodies mtr.parents levels
  top : mtr.parents root = none
  root : mtr.tree.root = some root
  distinct : (base.map Prod.snd ++ pagesOf levels).Nodup
  allocated : ∀ page ∈ base.map Prod.snd ++ pagesOf levels, mtr.Allocated page
  kept : ∀ page ∈ base.map Prod.snd ++ pagesOf levels, page ∉ mtr.disposed

variable {config : Config Key} {mtr changed : Mtr Key Rid} {level : List (Inner Key)}
  {higher : List (List (Inner Key))} {root : Nat}

theorem Upper.above (upper : Upper config mtr base (level :: higher) root) :
    Upper config mtr (level.map Inner.entry) higher root := by
  have pages : (level.map Inner.entry).map Prod.snd ++ pagesOf higher =
      pagesOf (level :: higher) := by rw [map_entry_snd, pagesOf_cons]
  refine ⟨upper.tower.2, ?_, ?_, upper.top, upper.root, ?_, ?_, ?_⟩
  · exact sepSorted_entries (upper.tower.1.symm ▸ upper.sorted)
  · exact (levelsStored_cons.mp upper.stored).2
  · rw [pages]
    exact (nodup_append'.mp upper.distinct).2.1
  · intro page member
    exact upper.allocated page (mem_append_right _ (pages ▸ member))
  · intro page member
    exact upper.kept page (mem_append_right _ (pages ▸ member))

theorem Upper.height (upper : Upper config mtr base levels root) :
    levels.length ≤ mtr.tree.header.pageCount := by
  have nodup := (nodup_append'.mp upper.distinct).2.1
  have inside : pagesOf levels ⊆ range mtr.tree.header.pageCount := by
    intro page member
    have allocated := upper.allocated page (mem_append_right _ member)
    exact mem_range.mpr ((BPFileHeader.checkPageNum_natCast _ _).mp allocated).1
  have few := (subperm_of_subset nodup inside).length_le
  rw [length_range] at few
  exact (length_le_pagesOf upper.tower).trans few

theorem Upper.root_mem (upper : Upper config mtr base levels root) :
    root ∈ base.map Prod.snd ++ pagesOf levels := by
  cases levels with
  | nil =>
    have single : base = [(config.zeroKey, root)] := upper.tower
    simp [single]
  | cons level higher =>
    exact mem_append_right _ (tower_top_mem upper.tower (by simp))

end Upper

end CsuDbms.BplusTreeModel

import Mathlib.Tactic.TypeStar

/-!
# Traversing a list with a step that can fail

`List.mapM` in `Option`: it succeeds where every step does and fails where one
fails.
-/

namespace CsuDbms.ListTraversal

open List Option

variable {Source Result : Type*} {step : Source → Option Result} {sources : List Source}

theorem map_m_of_some {image : Source → Result}
    (all : ∀ source ∈ sources, step source = some (image source)) :
    sources.mapM step = some (sources.map image) := by
  induction sources with
  | nil => rfl
  | cons first rest ih =>
    have tail := ih fun source member => all source (.tail _ member)
    rw [mapM_cons, all first (.head _), tail]
    rfl

theorem map_m_of_inverse {encode : Result → Source} {results : List Result}
    (inverse : ∀ result ∈ results, step (encode result) = some result) :
    (results.map encode).mapM step = some results := by
  rw [mapM_map]
  exact (map_m_of_some inverse).trans (congrArg some (map_id results))

theorem map_m_of_none {source : Source} (member : source ∈ sources)
    (fails : step source = none) : sources.mapM step = none := by
  induction sources with
  | nil => cases member
  | cons first rest ih =>
    rw [mapM_cons]
    rcases mem_cons.mp member with rfl | inside
    · rw [fails]
      rfl
    · rw [ih inside]
      cases step first <;> rfl

theorem mem_of_map_m {results : List Result}
    (traversed : sources.mapM step = some results) {source : Source} {result : Result}
    (member : source ∈ sources) (taken : step source = some result) : result ∈ results := by
  induction sources generalizing results with
  | nil => cases member
  | cons first rest ih =>
    rw [mapM_cons] at traversed
    obtain ⟨head, headTaken, traversed⟩ := bind_eq_some_iff.mp traversed
    obtain ⟨tail, tailTaken, traversed⟩ := bind_eq_some_iff.mp traversed
    cases traversed
    rcases mem_cons.mp member with rfl | inside
    · rw [headTaken] at taken
      cases taken
      exact .head _
    · exact .tail _ (ih tailTaken inside)

end CsuDbms.ListTraversal

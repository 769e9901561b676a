import Mathlib

/-!
# Words that are longer than what they are compared with

Lexicographic comparison of a word with one that is too long for it: only as many letters
count as the shorter side can have, so the long word may be cut, or cut and raised by one
in its last letter.
-/

namespace CsuDbms.PrefixOrder

open List

variable {Letter : Type*} [LinearOrder Letter] {word : List Letter}

theorem cons_le_cons_iff {letter other : Letter} {rest : List Letter} :
    letter :: word ≤ other :: rest ↔ letter < other ∨ letter = other ∧ word ≤ rest := by
  rw [← not_lt, cons_lt_cons_iff]
  rcases lt_trichotomy letter other with less | rfl | greater
  · simp [less, less.not_gt, less.ne']
  · simp
  · simp [greater, greater.not_gt, greater.ne']

variable {front : List Letter}

theorem lt_append_iff {back : List Letter} (short : word.length ≤ front.length)
    (longer : back ≠ []) : word < front ++ back ↔ word ≤ front := by
  induction front generalizing word with
  | nil =>
    obtain rfl : word = [] := length_eq_zero_iff.mp (Nat.le_zero.mp short)
    obtain ⟨letter, rest, rfl⟩ := exists_cons_of_ne_nil longer
    exact ⟨fun _ => le_refl _, fun _ => nil_lt_cons letter rest⟩
  | cons letter front ih =>
    cases word with
    | nil => exact ⟨fun _ => (nil_lt_cons _ _).le, fun _ => nil_lt_cons _ _⟩
    | cons other word =>
      rw [cons_append, cons_lt_cons_iff, cons_le_cons_iff,
        ih (Nat.le_of_succ_le_succ short)]

theorem le_append_iff (short : word.length ≤ front.length)
    (back : List Letter) : word ≤ front ++ back ↔ word ≤ front := by
  cases back with
  | nil => rw [append_nil]
  | cons letter back =>
    have apart : word ≠ front ++ letter :: back := by
      intro same
      rw [same, length_append, length_cons] at short
      omega
    rw [apart.le_iff_lt, lt_append_iff short (cons_ne_nil _ _)]

theorem append_next_le_iff {letter next : Letter} (follows : ∀ other, letter < other ↔ next ≤ other)
    (short : word.length ≤ front.length + 1) :
    front ++ [next] ≤ word ↔ front ++ [letter] < word := by
  induction front generalizing word with
  | nil =>
    cases word with
    | nil => simp
    | cons other rest =>
      obtain rfl : rest = [] := by simpa using short
      simp [cons_lt_cons_iff, follows, le_iff_lt_or_eq]
  | cons first front ih =>
    cases word with
    | nil => simp
    | cons other rest =>
      rw [cons_append, cons_append, cons_le_cons_iff, cons_lt_cons_iff,
        ih (Nat.le_of_succ_le_succ short)]

end CsuDbms.PrefixOrder

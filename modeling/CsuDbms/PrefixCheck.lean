import CsuDbms.SqlParser

/-!
# Checking a prefix

`collect_expected_tokens` parses a text for the place of its first syntax error.
The place stays in variables of the thread that only an error writes.
-/

namespace CsuDbms.CompletionModel

open List Option

/-- Line and column. -/
abbrev Place := Nat × Nat

/-- A match of the scanner, of its rule for a line break or of another. -/
inductive Match where
  | lineBreak
  | other (text : List Char)
  deriving DecidableEq

def Match.text : Match → List Char
  | .lineBreak => ['\n']
  | .other text => text

/-- `yylineno` and `yycolumn` after a match. Whether the column restarts at a line
break inside a match is for the generated scanner to say. -/
def Match.behind (restarts : Bool) (place : Place) : Match → Place
  | .lineBreak => (place.1 + 1, 1)
  | .other text => (place.1 + text.count '\n',
      (if restarts ∧ '\n' ∈ text then 0 else place.2) + text.length)

/-- `yylloc` of a match, whose line is the one it ends in. -/
def Match.place (restarts : Bool) (place : Place) (part : Match) : Place :=
  (place.1 + part.text.count '\n', if restarts ∧ '\n' ∈ part.text then 0 else place.2)

def nextPlace (place : Place) (char : Char) : Place :=
  if char = '\n' then (place.1 + 1, 1) else (place.1, place.2 + 1)

def computeSentinelLocation (text : List Char) : Place := text.foldl nextPlace (1, 1)

/-- The first error of a text: the matches before it, the match it is reported at, and the tokens
expected there. The end of a text is reported at the last match, an empty one if there is none. -/
abbrev Parser := List Char → Option (List Match × Match × List String)

variable (parser : Parser) (restarts : Bool)

/-- `collect_expected_tokens`, where earlier calls have left `place` in the thread. -/
def collectExpectedTokens (place : Place) (text : List Char) : List String × Place :=
  match parser text with
  | none => ([], place)
  | some (before, unexpected, expected) =>
    (expected, unexpected.place restarts (before.foldl (Match.behind restarts) (1, 1)))

def prefixIsValid (place : Place) (text : List Char) : Bool :=
  (collectExpectedTokens parser restarts place (text ++ ['\x01'])).2 = computeSentinelLocation text

/-- A call on the thread. A parse that does not collect leaves the place. -/
inductive Call where
  | sqlParse (text : List Char)
  | collect (text : List Char)

def placeAfter (calls : List Call) : Place :=
  calls.foldl (fun place call => match call with
    | .sqlParse _ => place
    | .collect text => (collectExpectedTokens parser restarts place text).2) (0, 0)

def HistoryFree (text : List Char) : Prop :=
  ∀ calls others, collectExpectedTokens parser restarts (placeAfter parser restarts calls) text =
    collectExpectedTokens parser restarts (placeAfter parser restarts others) text

variable {parser restarts}

theorem line_positive (parts : List Match) (place : Place) (positive : 0 < place.1) :
    0 < (parts.foldl (Match.behind restarts) place).1 := by
  induction parts generalizing place with
  | nil => exact positive
  | cons first rest ih =>
    apply ih
    cases first <;> simp only [Match.behind] <;> omega

theorem historyFree_iff {text : List Char} : HistoryFree parser restarts text ↔
    parser text ≠ none ∨ ∀ other, parser other = none := by
  cases parsed : parser text with
  | some error => simp [HistoryFree, collectExpectedTokens, parsed]
  | none =>
    simp only [HistoryFree, collectExpectedTokens, parsed, ne_eq, not_true_eq_false, false_or]
    constructor
    · intro same other
      by_contra reported
      obtain ⟨⟨before, unexpected, expected⟩, found⟩ := ne_none_iff_exists'.mp reported
      have stale := same [.collect other] []
      simp only [placeAfter, foldl, collectExpectedTokens, found, Match.place, Prod.mk.injEq,
        true_and] at stale
      have written := @line_positive restarts before (1, 1) one_pos
      omega
    · intro silent calls others
      have unwritten : ∀ calls, placeAfter parser restarts calls = (0, 0) := by
        intro calls
        induction calls using reverseRecOn with
        | nil => rfl
        | append_singleton calls last ih =>
          rw [placeAfter, foldl_append, ← placeAfter, ih]
          cases last <;> simp [collectExpectedTokens, silent]
      rw [unwritten calls, unwritten others]

theorem nextPlace_unbroken {text : List Char} (unbroken : '\n' ∉ text) (place : Place) :
    text.foldl nextPlace place = (place.1, place.2 + text.length) := by
  induction text generalizing place with
  | nil => rfl
  | cons char rest ih =>
    rw [mem_cons, not_or] at unbroken
    rw [foldl_cons, ih unbroken.2, nextPlace, if_neg (Ne.symm unbroken.1), length_cons]
    simp only [Prod.mk.injEq, true_and]
    omega

theorem nextPlace_broken {front rest : List Char} (unbroken : '\n' ∉ rest) (place : Place) :
    ((front ++ '\n' :: rest).foldl nextPlace place).2 = 1 + rest.length := by
  rw [foldl_append, foldl_cons, nextPlace_unbroken unbroken, nextPlace, if_pos rfl]

theorem nextPlace_line (text : List Char) (place : Place) :
    (text.foldl nextPlace place).1 = place.1 + text.count '\n' := by
  induction text generalizing place with
  | nil => rfl
  | cons char rest ih =>
    rw [foldl_cons, ih, nextPlace]
    by_cases broken : char = '\n'
    · simp only [broken, if_true, count_cons_self]
      omega
    · rw [if_neg broken, count_cons_of_ne broken]

theorem last_break {text : List Char} (broken : '\n' ∈ text) :
    ∃ front rest, text = front ++ '\n' :: rest ∧ '\n' ∉ rest := by
  obtain ⟨rest, front, split, unbroken⟩ := eq_append_cons_of_mem (mem_reverse.mpr broken)
  refine ⟨front.reverse, rest.reverse, ?_, by simpa using unbroken⟩
  rw [← reverse_reverse text, split]
  simp

theorem behind_line (part : Match) (place : Place) :
    (part.behind restarts place).1 = place.1 + part.text.count '\n' := by
  cases part <;> rfl

theorem behind_column_positive (part : Match) {place : Place} (positive : 0 < place.2) :
    0 < (part.behind restarts place).2 := by
  cases part with
  | lineBreak => exact one_pos
  | other text =>
    simp only [Match.behind]
    split
    · rename_i broken
      simpa using length_pos_of_mem broken.2
    · omega

/-- The column behind the match counts from its last line break. -/
def Match.CountsAfresh (restarts : Bool) : Match → Prop
  | .lineBreak => True
  | .other text => restarts = true ∧ ∃ rest, text = '\n' :: rest ∧ '\n' ∉ rest

/-- The last match with a line break is one of the rule for line breaks or, where the scanner
restarts the column, one whose only line break is its first character. -/
def LastBreakCounts (restarts : Bool) (parts : List Match) : Prop :=
  ∀ part ∈ (parts.filter fun part => '\n' ∈ part.text).getLast?, part.CountsAfresh restarts

theorem behind_column_iff {part : Match} (broken : '\n' ∈ part.text) {place : Place}
    (positive : 0 < place.2) (other : Place) :
    (part.behind restarts place).2 = (part.text.foldl nextPlace other).2 ↔
      part.CountsAfresh restarts := by
  cases part with
  | lineBreak => simp [Match.behind, Match.text, nextPlace, Match.CountsAfresh]
  | other text =>
    obtain ⟨front, rest, rfl, unbroken⟩ := last_break broken
    simp only [Match.text, nextPlace_broken unbroken, Match.behind, Match.CountsAfresh]
    constructor
    · intro same
      cases restarts with
      | false => simp at same; omega
      | true =>
        have alone : front = [] := length_eq_zero_iff.mp (by simp at same; omega)
        exact ⟨rfl, rest, by rw [alone]; rfl, unbroken⟩
    · rintro ⟨rfl, tail, split, clear⟩
      have alone : front = [] := by
        cases front with
        | nil => rfl
        | cons first front =>
          cases split
          simp at clear
      subst alone
      simp
      omega

/-- By induction on the matches from the right: a match without a line break moves both columns by
its length, and one with a line break forgets the column that the other counter had before it. -/
theorem behind_eq_sentinel_iff (parts : List Match) :
    parts.foldl (Match.behind restarts) (1, 1) =
        computeSentinelLocation (parts.flatMap Match.text) ↔
      LastBreakCounts restarts parts := by
  have lines : ∀ parts : List Match, (parts.foldl (Match.behind restarts) (1, 1)).1 =
      (computeSentinelLocation (parts.flatMap Match.text)).1 := by
    intro parts
    induction parts using reverseRecOn with
    | nil => rfl
    | append_singleton front last ih =>
      rw [foldl_append, foldl_cons, foldl_nil, behind_line, ih, computeSentinelLocation,
        computeSentinelLocation, flatMap_append, flatMap_singleton, foldl_append]
      exact (nextPlace_line last.text _).symm
  have columns : ∀ parts : List Match, 0 < (parts.foldl (Match.behind restarts) (1, 1)).2 := by
    intro parts
    induction parts using reverseRecOn with
    | nil => exact one_pos
    | append_singleton front last ih =>
      rw [foldl_append]
      exact behind_column_positive last ih
  rw [Prod.ext_iff, and_iff_right (lines parts)]
  induction parts using reverseRecOn with
  | nil => simp [computeSentinelLocation, LastBreakCounts]
  | append_singleton front last ih =>
    rw [foldl_append, foldl_cons, foldl_nil, computeSentinelLocation, flatMap_append,
      flatMap_singleton, foldl_append, ← computeSentinelLocation]
    by_cases broken : '\n' ∈ last.text
    · rw [behind_column_iff broken (columns front)]
      simp [LastBreakCounts, filter_append, broken]
    · have moved : last.behind restarts (front.foldl (Match.behind restarts) (1, 1)) =
          ((front.foldl (Match.behind restarts) (1, 1)).1,
            (front.foldl (Match.behind restarts) (1, 1)).2 + last.text.length) := by
        cases last with
        | lineBreak => simp [Match.text] at broken
        | other text =>
          have unbroken : '\n' ∉ text := broken
          simp [Match.behind, Match.text, unbroken, count_eq_zero_of_not_mem unbroken]
      rw [moved, nextPlace_unbroken broken, Nat.add_right_cancel_iff]
      refine ih.trans ?_
      simp [LastBreakCounts, filter_append, broken]

theorem prefix_check (text : List Char) :
    (HistoryFree parser restarts text ↔ parser text ≠ none ∨ ∀ other, parser other = none) ∧
      ∀ before expected,
        parser (text ++ ['\x01']) = some (before, .other ['\x01'], expected) →
        before.flatMap Match.text = text → ∀ place,
          ((collectExpectedTokens parser restarts place (text ++ ['\x01'])).2 =
            computeSentinelLocation text ↔ LastBreakCounts restarts before) := by
  refine ⟨historyFree_iff, fun before expected found whole place => ?_⟩
  rw [collectExpectedTokens, found, ← whole, ← behind_eq_sentinel_iff]
  simp [Match.place, Match.text]

def lastCharacterParser : Parser := fun text =>
  if (SqlParserModel.parse text).isSome then none
  else some ([.other text.dropLast], .other (text.getLast?.toList), [])

theorem prefix_check_last_character : ∀ place,
    (collectExpectedTokens lastCharacterParser true place "SELECT 12\x01".toList).2 = (1, 10) := by
  intro place
  refine ((prefix_check "SELECT 12".toList).2 [.other "SELECT 12".toList] [] (by decide +kernel)
    (by decide +kernel) place).mpr ?_
  simp [LastBreakCounts, Match.text]

/-- The comment takes the sentinel, and the place of the earlier check stays. The
columns of the two counters differ behind a string with a line break. -/
def StaleCheck (restarts : Bool) : Prop :=
  let checked := placeAfter lastCharacterParser restarts [.collect "SELECT 12\x01".toList]
  prefixIsValid lastCharacterParser restarts checked "BEGIN; --".toList = true ∧
    prefixIsValid lastCharacterParser restarts (0, 0) "BEGIN; --".toList = false ∧
    [.other "SELECT".toList, .other [' '], .other "'a\nb'".toList].foldl
      (Match.behind restarts) (1, 1) ≠ computeSentinelLocation "SELECT 'a\nb'".toList

theorem stale_prefix_check : StaleCheck true ∧ StaleCheck false := by
  unfold StaleCheck
  decide +kernel

end CsuDbms.CompletionModel

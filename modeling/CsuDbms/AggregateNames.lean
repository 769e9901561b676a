import CsuDbms.PrefixCheck

/-!
# Names of select expressions

The scanner counts columns from one and starts again behind a line break, and
`token_name` takes a column for a place in the whole text. The name finds the
value of an aggregate among those of the select list.
-/

namespace CsuDbms.AggregateNames

open CompletionModel List Option

section

variable (restarts : Bool)

def textOf (parts : List Match) : List Char := parts.flatMap Match.text

/-- `yycolumn` behind the matches. -/
def columnOf (parts : List Match) : Nat := (parts.foldl (Match.behind restarts) (1, 1)).2

/-- An expression in a text: its first token and the matches up to its last one. -/
structure Occurrence where
  before : List Match
  first : List Char
  rest : List Match
  after : List Match
  nonempty : first ≠ []
  deriving DecidableEq

def substring (text : List Char) (first length : Nat) : List Char :=
  ((text ++ ['\x00']).drop first).take length

/-- The scanner's column starts again in the match. -/
def resets : Match → Bool
  | .lineBreak => true
  | .other text => restarts && decide ('\n' ∈ text)

/-- The column behind the matches as the layout gives it: one more than the number of characters
behind the last line break that has a match of its own. A later match in which the column starts
again counts with all its characters, and nothing before it. -/
def lineColumn (parts : List Match) : Nat :=
  (match (parts.rdropWhile fun part => !resets restarts part).getLast? with
    | some (.other text) => text.length
    | _ => 1) + (textOf (parts.rtakeWhile fun part => !resets restarts part)).length

namespace Occurrence

variable (occurrence : Occurrence)

def written : List Match := .other occurrence.first :: occurrence.rest

def parts : List Match := occurrence.before ++ occurrence.written ++ occurrence.after

def text : List Char := textOf occurrence.written

def firstColumn : Nat :=
  ((Match.other occurrence.first).place restarts
    (occurrence.before.foldl (Match.behind restarts) (1, 1))).2

/-- One more than `last_column`, which is `yycolumn` behind the last token. -/
def endColumn : Nat := columnOf restarts (occurrence.before ++ occurrence.written)

/-- `token_name`; there is no string of a negative length. -/
def name : Option (List Char) :=
  if occurrence.endColumn restarts < occurrence.firstColumn restarts then none
  else some (substring (textOf occurrence.parts) (occurrence.firstColumn restarts)
    (occurrence.endColumn restarts - occurrence.firstColumn restarts))

/-- The place in its line, from one; a first token over a line break may have none before it. -/
def linePlace : Nat :=
  if resets restarts (.other occurrence.first) then 0 else lineColumn restarts occurrence.before

/-- The characters stand in the text as far from its start as the expression from that of its line,
and end as far from it. -/
def Covers (characters : List Char) : Prop :=
  occurrence.linePlace restarts + characters.length =
      lineColumn restarts (occurrence.before ++ occurrence.written) ∧
    substring (textOf occurrence.parts) (occurrence.linePlace restarts) characters.length =
      characters

/-- The expression is on one line, and its characters stand in the text as far from its start as
the expression from that of its line. -/
def InPlace : Prop :=
  (∀ part ∈ occurrence.rest, resets restarts part = false) ∧
    substring (textOf occurrence.parts) (occurrence.linePlace restarts) occurrence.text.length =
      occurrence.text

/-- Part of an expression of the same text. -/
def Within (expression : Occurrence) : Prop :=
  ∃ front back, occurrence.before = expression.before ++ front ∧
    expression.written = front ++ occurrence.written ++ back

end Occurrence

end

variable {restarts : Bool}

section Columns

theorem behind_column (part : Match) (place : Place) :
    (part.behind restarts place).2 = match part with
      | .lineBreak => 1
      | .other text => (if resets restarts part then 0 else place.2) + text.length := by
  cases part with
  | lineBreak => rfl
  | other text => simp [Match.behind, resets]

theorem column_append (parts : List Match) (last : Match) :
    columnOf restarts (parts ++ [last]) = match last with
      | .lineBreak => 1
      | .other text => (if resets restarts last then 0 else columnOf restarts parts) + text.length := by
  rw [columnOf, foldl_append, foldl_cons, foldl_nil, behind_column]
  rfl

theorem column_eq_layout (parts : List Match) :
    columnOf restarts parts = lineColumn restarts parts := by
  induction parts using reverseRecOn with
  | nil => rfl
  | append_singleton parts last ih =>
    rw [column_append, ih]
    by_cases reset : resets restarts last = true
    · have kept : ¬(!resets restarts last) = true := by simp [reset]
      have drop := rdropWhile_concat_neg (fun part => !resets restarts part) parts last kept
      have take := rtakeWhile_concat_neg (fun part => !resets restarts part) parts last kept
      simp only [lineColumn, drop, take, getLast?_append, getLast?_singleton]
      cases last <;> simp [reset, textOf]
    · have passed : (!resets restarts last) = true := by simp [reset]
      have drop := rdropWhile_concat_pos (fun part => !resets restarts part) parts last passed
      have take := rtakeWhile_concat_pos (fun part => !resets restarts part) parts last passed
      simp only [lineColumn, drop, take]
      cases last with
      | lineBreak => exact absurd rfl reset
      | other text => simp [reset, textOf, Match.text, Nat.add_assoc]

theorem column_straight (parts : List Match) {rest : List Match}
    (straight : ∀ part ∈ rest, resets restarts part = false) :
    columnOf restarts (parts ++ rest) = columnOf restarts parts + (textOf rest).length := by
  induction rest using reverseRecOn with
  | nil => simp [textOf]
  | append_singleton rest last ih =>
    obtain ⟨earlier, now⟩ := forall_mem_append.mp straight
    have unbroken := forall_mem_singleton.mp now
    rw [← append_assoc, column_append]
    cases last with
    | lineBreak => cases unbroken
    | other text => simp [unbroken, ih earlier, textOf, Match.text, Nat.add_assoc]

theorem column_le (parts : List Match) : columnOf restarts parts ≤ (textOf parts).length + 1 := by
  induction parts using reverseRecOn with
  | nil => exact Nat.le_refl 1
  | append_singleton parts last ih =>
    rw [column_append]
    cases last with
    | lineBreak => simp [textOf, Match.text]
    | other text =>
      simp only [textOf, flatMap_append, flatMap_singleton, Match.text, length_append] at ih ⊢
      split <;> omega

theorem column_reset {parts rest : List Match} (positive : 0 < columnOf restarts parts)
    (broken : ∃ part ∈ rest, resets restarts part = true) :
    columnOf restarts (parts ++ rest) < columnOf restarts parts + (textOf rest).length := by
  induction rest using reverseRecOn with
  | nil => simp at broken
  | append_singleton rest last ih =>
    rw [← append_assoc, column_append]
    by_cases reset : resets restarts last = true
    · cases last with
      | lineBreak => simp [textOf, Match.text]; omega
      | other text => simp [reset, textOf, Match.text]; omega
    · have earlier : ∃ part ∈ rest, resets restarts part = true := by
        obtain ⟨part, member, there⟩ := broken
        rcases mem_append.mp member with before | now
        · exact ⟨part, before, there⟩
        · exact absurd (mem_singleton.mp now ▸ there) reset
      cases last with
      | lineBreak => exact absurd rfl reset
      | other text =>
        have shorter := ih earlier
        simp [reset, textOf, Match.text] at shorter ⊢
        omega

end Columns

namespace Occurrence

variable {occurrence : Occurrence}

theorem firstColumn_eq (occurrence : Occurrence) :
    occurrence.firstColumn restarts = occurrence.linePlace restarts := by
  rw [firstColumn, linePlace, ← column_eq_layout]
  by_cases broken : restarts = true ∧ '\n' ∈ occurrence.first
  · simp [Match.place, Match.text, resets, broken]
  · simp [Match.place, Match.text, resets, columnOf, broken]

theorem column_behind_first (occurrence : Occurrence) :
    columnOf restarts (occurrence.before ++ [.other occurrence.first]) =
      occurrence.linePlace restarts + occurrence.first.length := by
  rw [column_append, linePlace, column_eq_layout]

theorem endColumn_eq (occurrence : Occurrence) : occurrence.endColumn restarts =
    columnOf restarts (occurrence.before ++ [.other occurrence.first] ++ occurrence.rest) := by
  simp [endColumn, written]

theorem length_text (occurrence : Occurrence) :
    occurrence.text.length = occurrence.first.length + (textOf occurrence.rest).length := by
  simp [text, written, textOf, Match.text]

theorem endColumn_straight (straight : ∀ part ∈ occurrence.rest, resets restarts part = false) :
    occurrence.endColumn restarts = occurrence.linePlace restarts + occurrence.text.length := by
  rw [endColumn_eq, column_straight _ straight, column_behind_first, length_text, Nat.add_assoc]

theorem endColumn_reset (broken : ∃ part ∈ occurrence.rest, resets restarts part = true) :
    occurrence.endColumn restarts < occurrence.linePlace restarts + occurrence.text.length := by
  have positive : 0 < columnOf restarts (occurrence.before ++ [.other occurrence.first]) := by
    have first := length_pos_of_ne_nil occurrence.nonempty
    rw [column_behind_first]
    omega
  have shorter := column_reset positive broken
  rw [column_behind_first] at shorter
  rw [endColumn_eq, length_text]
  omega

theorem name_iff (occurrence : Occurrence) (characters : List Char) :
    occurrence.name restarts = some characters ↔ occurrence.Covers restarts characters := by
  rw [Covers, ← column_eq_layout, ← endColumn, ← firstColumn_eq]
  constructor
  · intro named
    unfold name at named
    split at named
    · cases named
    · rename_i forward
      -- the columns end in front of the end of the text
      have fits : occurrence.endColumn restarts ≤ (textOf occurrence.parts).length + 1 := by
        refine (column_le _).trans ?_
        simp only [parts, textOf, flatMap_append, length_append]
        omega
      have width := congrArg length (some.inj named)
      rw [substring, length_take, length_drop, length_append, length_singleton] at width
      have exactly : characters.length =
          occurrence.endColumn restarts - occurrence.firstColumn restarts := by omega
      exact ⟨by omega, exactly ▸ some.inj named⟩
  · rintro ⟨width, same⟩
    rw [name, if_neg (by omega), ← width, Nat.add_sub_cancel_left, same]

theorem name_exact_iff (occurrence : Occurrence) :
    occurrence.name restarts = some occurrence.text ↔ occurrence.InPlace restarts := by
  by_cases straight : ∀ part ∈ occurrence.rest, resets restarts part = false
  · have width := endColumn_straight straight
    have span : occurrence.endColumn restarts - occurrence.firstColumn restarts =
        occurrence.text.length := by
      rw [width, firstColumn_eq, Nat.add_sub_cancel_left]
    have forward : ¬occurrence.endColumn restarts < occurrence.firstColumn restarts := by
      rw [width, firstColumn_eq]
      omega
    rw [name, if_neg forward, span, InPlace, firstColumn_eq, and_iff_right straight]
    exact some_inj
  · have broken : ∃ part ∈ occurrence.rest, resets restarts part = true := by
      simpa using straight
    have shorter := endColumn_reset broken
    simp only [InPlace, straight, false_and, iff_false]
    intro named
    rw [name, firstColumn_eq] at named
    split at named
    · cases named
    · -- the name is shorter than the expression
      have length := congrArg length (some.inj named)
      rw [substring, length_take] at length
      omega

theorem InPlace.within {expression : Occurrence} (inPlace : expression.InPlace restarts)
    (within : occurrence.Within expression) (same : occurrence.parts = expression.parts) :
    occurrence.InPlace restarts := by
  obtain ⟨front, back, before, whole⟩ := within
  obtain ⟨straight, stands⟩ := inPlace
  have place : occurrence.linePlace restarts =
      expression.linePlace restarts + (textOf front).length ∧
      ∀ part ∈ occurrence.rest, resets restarts part = false := by
    cases front with
    | nil =>
      obtain ⟨first, rest⟩ := cons.inj whole
      have same : expression.first = occurrence.first := Match.other.inj first
      refine ⟨by simp [linePlace, before, same, textOf], fun part member => straight part ?_⟩
      rw [rest]
      exact mem_append_left _ member
    | cons head front =>
      obtain ⟨first, rest⟩ := cons.inj whole
      rw [rest] at straight
      obtain ⟨early, late⟩ := forall_mem_append.mp straight
      obtain ⟨ahead, own⟩ := forall_mem_append.mp early
      obtain ⟨unbroken, behind⟩ := forall_mem_cons.mp own
      refine ⟨?_, behind⟩
      rw [linePlace, if_neg (by simp [unbroken]), ← column_eq_layout, before, ← first,
        append_cons, column_straight _ ahead, column_behind_first]
      simp [textOf, Match.text, Nat.add_assoc]
  refine ⟨place.2, ?_⟩
  have text : expression.text = textOf front ++ occurrence.text ++ textOf back := by
    simp [Occurrence.text, whole, textOf]
  have inside : min occurrence.text.length
      ((textOf front ++ (occurrence.text ++ textOf back)).length - (textOf front).length) =
        occurrence.text.length := by
    simp
  have cut := congrArg (fun characters => (characters.drop (textOf front).length).take
    occurrence.text.length) stands
  rw [same, place.1]
  simp only [substring, text, append_assoc, drop_left, take_left, drop_take, drop_drop, take_take]
    at cut ⊢
  rwa [inside] at cut

end Occurrence

/-- The select expressions, the aggregates in them and those of `ORDER BY`. -/
structure Query where
  parts : List Match
  expressions : List Occurrence
  aggregates : List Occurrence
  orderBy : List Occurrence
  inText : ∀ part ∈ expressions ++ aggregates ++ orderBy, part.parts = parts
  selected : ∀ aggregate ∈ aggregates, ∃ expression ∈ expressions, aggregate.Within expression

section

variable (restarts) {Aggregate : Type} (parsed : List Char → Aggregate)

/-- `AggregateExpr::get_value`: the first aggregate of the select list with the name.
`create_group_by_plan` collects no others. -/
def Query.shown (query : Query) (occurrence : Occurrence) : Option Aggregate :=
  (query.aggregates.find? fun aggregate =>
    aggregate.name restarts = occurrence.name restarts).map fun aggregate => parsed aggregate.text

def ShowsOwn (query : Query) : Prop :=
  (∀ occurrence ∈ query.aggregates ++ query.orderBy,
      query.shown restarts parsed occurrence = some (parsed occurrence.text)) ∧
    ∀ expression ∈ query.expressions, expression.name restarts = some expression.text

/-- Every select expression also stands where its name is read, and so does, for every aggregate of
`ORDER BY`, the same aggregate as it is written in the select list. -/
structure Distinguished (query : Query) : Prop where
  inPlace : ∀ expression ∈ query.expressions, expression.InPlace restarts
  repeated : ∀ occurrence ∈ query.orderBy, ∃ aggregate ∈ query.aggregates,
    occurrence.Covers restarts aggregate.text ∧ parsed aggregate.text = parsed occurrence.text

end

section

variable {Aggregate : Type} {parsed : List Char → Aggregate} {query : Query}

theorem aggregate_name
    (inPlace : ∀ expression ∈ query.expressions, expression.InPlace restarts)
    {aggregate : Occurrence} (member : aggregate ∈ query.aggregates) :
    aggregate.name restarts = some aggregate.text := by
  obtain ⟨expression, selected, within⟩ := query.selected aggregate member
  have same : aggregate.parts = expression.parts :=
    (query.inText aggregate (by simp [member])).trans
      (query.inText expression (by simp [selected])).symm
  exact aggregate.name_exact_iff.mpr ((inPlace expression selected).within within same)

theorem shown_of_named {aggregate occurrence : Occurrence}
    (inPlace : ∀ expression ∈ query.expressions, expression.InPlace restarts)
    (member : aggregate ∈ query.aggregates)
    (name : occurrence.name restarts = some aggregate.text) :
    query.shown restarts parsed occurrence = some (parsed aggregate.text) := by
  rw [Query.shown]
  have named := aggregate_name inPlace member
  cases found : query.aggregates.find? fun other =>
      other.name restarts = occurrence.name restarts with
  | none =>
    have none := find?_eq_none.mp found aggregate member
    exact absurd (decide_eq_true (named.trans name.symm)) none
  | some first =>
    have same : first.name restarts = occurrence.name restarts := by simpa using find?_some found
    have own := aggregate_name inPlace (mem_of_find?_eq_some found)
    rw [map_some, Option.some.inj (own.symm.trans (same.trans name))]

end

/-- `MIN(a)` and `MAX(a)` on lines of their own behind `SELECT`. -/
def minimum : Occurrence where
  before := [.other "SELECT".toList, .lineBreak]
  first := "MIN".toList
  rest := [.other ['('], .other ['a'], .other [')']]
  after := [.other [','], .lineBreak, .other "MAX".toList, .other ['('], .other ['a'],
    .other [')'], .other [' '], .other "FROM".toList, .other [' '], .other ['t']]
  nonempty := by decide

def maximum : Occurrence where
  before := minimum.before ++ minimum.written ++ [.other [','], .lineBreak]
  first := "MAX".toList
  rest := [.other ['('], .other ['a'], .other [')']]
  after := minimum.after.drop 6
  nonempty := by decide

def twoLines : Query where
  parts := minimum.parts
  expressions := [minimum, maximum]
  aggregates := [minimum, maximum]
  orderBy := []
  inText := by decide
  selected := fun aggregate member => ⟨aggregate, member, [], [], by simp, by simp⟩

end CsuDbms.AggregateNames

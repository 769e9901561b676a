import CsuDbms.SqlLexer

/-!
# String literals

A string is written between two quotes, with the quotes inside it doubled or
behind a backslash and the backslashes doubled. The scanner finds where the
literal ends and `unescape_quoted_string` of `yacc_sql.y` reads it back; both
go from left to right but decide by themselves what a quote or a backslash is.
-/

namespace CsuDbms.SqlParserModel

open List Option

/-- `Written quote text literal`: the literal stands for the text. -/
inductive Written (quote : Char) : List Char → List Char → Prop
  | nil : Written quote [] []
  | doubled {text literal : List Char} (rest : Written quote text literal) :
      Written quote (quote :: text) (quote :: quote :: literal)
  | escaped {text literal : List Char} (rest : Written quote text literal) :
      Written quote (quote :: text) ('\\' :: quote :: literal)
  | backslash {text literal : List Char} (rest : Written quote text literal) :
      Written quote ('\\' :: text) ('\\' :: '\\' :: literal)
  | plain {char : Char} {text literal : List Char} (notQuote : char ≠ quote)
      (notBackslash : char ≠ '\\') (rest : Written quote text literal) :
      Written quote (char :: text) (char :: literal)

/-- The loop of `unescape_quoted_string` over what is between the quotes. -/
def unescapeLoop (quote : Char) : List Char → List Char
  | [] => []
  | [last] => [last]
  | char :: next :: rest =>
    if char = '\\' then next :: unescapeLoop quote rest
    else if char = quote ∧ next = quote then quote :: unescapeLoop quote rest
    else char :: unescapeLoop quote (next :: rest)

def unescapeQuotedString : List Char → List Char
  | [] => []
  | [single] => [single]
  | quote :: rest => unescapeLoop quote rest.dropLast

variable {after : List Char} {quote : Char}

section
variable {text literal : List Char}

theorem quoted_of_plain {char : Char} (rest : List Char) (notQuote : char ≠ quote)
    (notBackslash : char ≠ '\\') :
    quoted quote (char :: rest) =
      (quoted quote rest).map fun found => (char :: found.1, found.2) := by
  rw [quoted.eq_def]
  split
  all_goals simp_all

section

variable (notBackslash : quote ≠ '\\')
include notBackslash

theorem quoted_ends (ends : after.head? ≠ some quote) :
    quoted quote (quote :: after) = some ([], after) := by
  rw [quoted.eq_def]
  split
  all_goals try simp_all
  split
  all_goals simp_all

theorem quoted_doubled {rest : List Char} {found : List Char × List Char}
    (inner : quoted quote rest = some found) :
    quoted quote (quote :: quote :: rest) = some (quote :: quote :: found.1, found.2) := by
  rw [quoted.eq_def]
  split
  · simp_all
  · simp_all
  · simp_all
  · rename_i same
    obtain ⟨rfl, rfl⟩ := cons.inj same
    simp [inner]

theorem quoted_written (notNewline : quote ≠ '\n')
    (written : Written quote text literal) (ends : after.head? ≠ some quote) :
    quoted quote (literal ++ quote :: after) = some (literal, after) := by
  induction written with
  | nil => exact quoted_ends notBackslash ends
  | doubled rest ih => exact quoted_doubled notBackslash ih
  | escaped rest ih => simp only [cons_append, quoted, if_neg notNewline, ih, map_some]
  | backslash rest ih =>
    have char : ('\\' : Char) ≠ '\n' := by decide
    simp only [cons_append, quoted, if_neg char, ih, map_some]
  | plain notQuote other rest ih =>
    rw [cons_append, quoted_of_plain _ notQuote other, ih, map_some]

theorem unescape_loop_written (written : Written quote text literal) :
    unescapeLoop quote literal = text := by
  induction written with
  | nil => rfl
  | doubled rest ih => simp only [unescapeLoop, if_neg notBackslash, and_self, if_true, ih]
  | escaped rest ih => simp only [unescapeLoop, if_true, ih]
  | backslash rest ih => simp only [unescapeLoop, if_true, ih]
  | @plain char text literal notQuote other rest ih =>
    cases literal with
    | nil =>
      cases rest
      rfl
    | cons next more => simp only [unescapeLoop, if_neg other, notQuote, false_and, if_false, ih]

theorem unescape_quoted (written : Written quote text literal) :
    unescapeQuotedString (quote :: literal ++ [quote]) = text := by
  have inner : unescapeQuotedString (quote :: literal ++ [quote]) =
      unescapeLoop quote (literal ++ [quote]).dropLast := by
    cases literal <;> rfl
  rw [inner, dropLast_concat]
  exact unescape_loop_written notBackslash written

end

theorem written_no_nul (notNul : quote ≠ '\x00') (written : Written quote text literal)
    (clean : '\x00' ∉ text) : '\x00' ∉ literal := by
  induction written with
  | nil => exact clean
  | plain notQuote other rest ih =>
    simp only [mem_cons, not_or] at clean ⊢
    exact ⟨clean.1, ih clean.2⟩
  | _ rest ih =>
    have backslash : '\x00' ≠ '\\' := by decide
    simp only [mem_cons, not_or] at clean ⊢
    exact ⟨by first | exact notNul.symm | exact backslash,
      by first | exact notNul.symm | exact backslash, ih clean.2⟩

theorem c_string_append {before : List Char} (clean : '\x00' ∉ before) (after : List Char) :
    cString (before ++ after) = before ++ cString after := by
  apply takeWhile_append_of_pos
  intro char member
  simp only [bne_iff_ne]
  exact fun nul => clean (nul ▸ member)

end

theorem scan_of_quote (isQuote : quote = '\'' ∨ quote = '"') (rest : List Char) :
    scan (quote :: rest) = scanQuoted quote rest := by
  cases isQuote with
  | inl single => subst single; rfl
  | inr double => subst double; rfl

theorem c_string_head (ends : after.head? ≠ some quote) :
    (cString after).head? ≠ some quote := by
  cases after with
  | nil => exact ends
  | cons next more =>
    intro starts
    by_cases nul : next = '\x00'
    · simp [cString, nul] at starts
    · simp [cString, nul] at starts
      exact ends (congrArg some starts)

/-- Whatever follows a literal, unless it begins with the quote, the literal is one token,
the rest is read as it would be alone, and the token stands for the text. -/
theorem string_literal_round_trip {quote : Char} (isQuote : quote = '\'' ∨ quote = '"')
    {text literal : List Char} (after : List Char)
    (clean : '\x00' ∉ text) (written : Written quote text literal) (ends : after.head? ≠ some quote) :
    lex (quote :: literal ++ quote :: after) =
        .sss (String.ofList (quote :: literal ++ [quote])) :: lex after ∧
      unescapeQuotedString (quote :: literal ++ [quote]) = text := by
  have chars : quote ≠ '\\' ∧ quote ≠ '\n' ∧ quote ≠ '\x00' := by
    cases isQuote with
    | inl single => subst single; decide
    | inr double => subst double; decide
  apply And.intro
  · have inside : '\x00' ∉ quote :: literal ++ [quote] := by
      simp [chars.2.2.symm, written_no_nul chars.2.2 written clean]
    have token : scan (quote :: literal ++ quote :: cString after) =
        .found (.sss (String.ofList (quote :: literal ++ [quote]))) (cString after) := by
      rw [cons_append, scan_of_quote isQuote, scanQuoted,
        quoted_written chars.1 chars.2.1 written (c_string_head ends)]
    have source : cString (quote :: literal ++ quote :: after) =
        quote :: literal ++ quote :: cString after := by
      have := c_string_append inside after
      simpa using this
    rw [lex, source, lexFuel, token]
    apply congrArg (Token.sss _ :: ·)
    apply lex_fuel_enough
    · simp
      omega
    · exact Nat.lt_succ_self _
  · exact unescape_quoted chars.1 written

/-- The text `\'` written once with a doubled and once with an escaped quote. -/
theorem backslash_quote_round_trip :
    (lex "'\\\\''';".toList = [.sss "'\\\\'''", .semicolon] ∧
      unescapeQuotedString "'\\\\'''".toList = ['\\', '\'']) ∧
    unescapeQuotedString "'\\\\\\''".toList = ['\\', '\''] :=
  ⟨string_literal_round_trip (.inl rfl) [';'] (by decide) (.backslash (.doubled .nil))
    (by decide), (string_literal_round_trip (.inl rfl) [] (by decide)
      (.backslash (.escaped .nil)) (by decide)).2⟩

end CsuDbms.SqlParserModel

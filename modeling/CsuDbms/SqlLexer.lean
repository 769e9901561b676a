import Mathlib

/-!
# The tokens of a SQL text

The rules of `lex_sql.l`: the longest match wins and, among matches of one
length, the first rule. A text is its list of characters. The scanner is given
a C string, so it ends at a NUL. Its last rule returns the character as a
token code; a byte above 127 is then negative, which the parser takes for the
end of its input.
-/

namespace CsuDbms.SqlParserModel

open List Option

inductive Keyword where
  | exit | help | desc | asc | create | drop | table | tables | index | on | join | inner
  | showKey | sync | select | calc | fromKey | whereKey | and | or
  | insert | into | values | delete | update | set
  | trxBegin | trxCommit | trxRollback
  | nullT | is | not | intT | stringT | floatT | vectorT | date
  | load | data | infile | explain | group | byKey | order | storage | format | primary | key
  | analyze | fields | terminated | enclosed
  deriving DecidableEq, Repr

def Keyword.all : List Keyword :=
  [.exit, .help, .desc, .asc, .create, .drop, .table, .tables, .index, .on, .join, .inner,
    .showKey, .sync, .select, .calc, .fromKey, .whereKey, .and, .or,
    .insert, .into, .values, .delete, .update, .set,
    .trxBegin, .trxCommit, .trxRollback,
    .nullT, .is, .not, .intT, .stringT, .floatT, .vectorT, .date,
    .load, .data, .infile, .explain, .group, .byKey, .order, .storage, .format, .primary, .key,
    .analyze, .fields, .terminated, .enclosed]

def Keyword.name : Keyword → String
  | .exit => "EXIT" | .help => "HELP" | .desc => "DESC" | .asc => "ASC"
  | .create => "CREATE" | .drop => "DROP" | .table => "TABLE" | .tables => "TABLES"
  | .index => "INDEX" | .on => "ON" | .join => "JOIN" | .inner => "INNER"
  | .showKey => "SHOW" | .sync => "SYNC" | .select => "SELECT" | .calc => "CALC"
  | .fromKey => "FROM" | .whereKey => "WHERE" | .and => "AND" | .or => "OR"
  | .insert => "INSERT" | .into => "INTO" | .values => "VALUES" | .delete => "DELETE"
  | .update => "UPDATE" | .set => "SET"
  | .trxBegin => "BEGIN" | .trxCommit => "COMMIT" | .trxRollback => "ROLLBACK"
  | .nullT => "NULL" | .is => "IS" | .not => "NOT" | .intT => "INT" | .stringT => "CHAR"
  | .floatT => "FLOAT" | .vectorT => "VECTOR" | .date => "DATE"
  | .load => "LOAD" | .data => "DATA" | .infile => "INFILE" | .explain => "EXPLAIN"
  | .group => "GROUP" | .byKey => "BY" | .order => "ORDER" | .storage => "STORAGE"
  | .format => "FORMAT" | .primary => "PRIMARY" | .key => "KEY"
  | .analyze => "ANALYZE" | .fields => "FIELDS" | .terminated => "TERMINATED"
  | .enclosed => "ENCLOSED"

/-- `char` is a character that the scanner returns as its own token: the four
arithmetic operators and everything it does not know. -/
inductive Token where
  | keyword (keyword : Keyword)
  | id (name : String)
  | number (digits : String)
  | float (digits : String)
  | sss (quoted : String)
  | semicolon | dot | lbrace | rbrace | comma
  | eq | le | ne | lt | ge | gt
  | char (code : Char)
  deriving DecidableEq, Repr

/-- `WHITE_SPACE`, where `\b` is the backspace character, and the newline. -/
def isBlank (char : Char) : Bool :=
  char == ' ' || char == '\t' || char == '\x08' || char == '\x0c' || char == '\n'

def isIdStart (char : Char) : Bool := char.isAlpha || char == '_'

def isIdRest (char : Char) : Bool := char.isAlphanum || char == '_'

/-- What is left after the `*/` of a comment; a comment that is not closed
takes the rest of the text. -/
def afterComment : List Char → List Char
  | [] => []
  | '*' :: '/' :: rest => rest
  | _ :: rest => afterComment rest

/-- The inside of a string literal and the text after it. A quote before another one closes the
literal only if the pair cannot stand for a quote inside it. A backslash takes the next character,
which may not be a newline. -/
def quoted (quote : Char) : List Char → Option (List Char × List Char)
  | [] => none
  | '\\' :: [] => none
  | '\\' :: char :: rest =>
    if char = '\n' then none
    else (quoted quote rest).map fun found => ('\\' :: char :: found.1, found.2)
  | char :: rest =>
    if char = quote then
      match rest with
      | [] => some ([], [])
      | next :: after =>
        if next = quote then
          match quoted quote after with
          | some found => some (quote :: quote :: found.1, found.2)
          | none => some ([], rest)
        else some ([], rest)
    else (quoted quote rest).map fun found => (char :: found.1, found.2)

/-- A keyword wins over an identifier of the same length. -/
def wordToken (word : List Char) : Token :=
  match Keyword.all.find? fun keyword => keyword.name == String.ofList (word.map Char.toUpper) with
  | some keyword => .keyword keyword
  | none => .id (String.ofList word)

inductive Scan where
  | stop
  | skip (rest : List Char)
  | found (token : Token) (rest : List Char)

def scanNumber (text : List Char) : Scan :=
  let digits := text.takeWhile Char.isDigit
  match text.dropWhile Char.isDigit with
  | '.' :: next :: rest =>
    if next.isDigit then
      .found (.float (String.ofList (digits ++ '.' :: next :: rest.takeWhile Char.isDigit)))
        (rest.dropWhile Char.isDigit)
    else .found (.number (String.ofList digits)) ('.' :: next :: rest)
  | rest => .found (.number (String.ofList digits)) rest

def scanQuoted (quote : Char) (rest : List Char) : Scan :=
  match quoted quote rest with
  | some found => .found (.sss (String.ofList (quote :: found.1 ++ [quote]))) found.2
  | none => .found (.char quote) rest

def scanSymbol : Char → List Char → Scan
  | ';', rest => .found .semicolon rest
  | '.', rest => .found .dot rest
  | '(', rest => .found .lbrace rest
  | ')', rest => .found .rbrace rest
  | ',', rest => .found .comma rest
  | '=', '=' :: rest => .found .eq rest
  | '=', rest => .found .eq rest
  | '<', '=' :: rest => .found .le rest
  | '<', '>' :: rest => .found .ne rest
  | '!', '=' :: rest => .found .ne rest
  | '<', rest => .found .lt rest
  | '>', '=' :: rest => .found .ge rest
  | '>', rest => .found .gt rest
  | char, rest => if char.toNat < 128 then .found (.char char) rest else .stop

def scan : List Char → Scan
  | [] => .stop
  | '-' :: '-' :: rest => .skip (rest.dropWhile (· != '\n'))
  | '/' :: '*' :: rest => .skip (afterComment rest)
  | char :: rest =>
    if isBlank char then .skip rest
    else if char.isDigit then scanNumber (char :: rest)
    else if isIdStart char then
      .found (wordToken (char :: rest.takeWhile isIdRest)) (rest.dropWhile isIdRest)
    else if char = '\'' ∨ char = '"' then scanQuoted char rest
    else scanSymbol char rest

def lexFuel : Nat → List Char → List Token
  | 0, _ => []
  | fuel + 1, text =>
    match scan text with
    | .stop => []
    | .skip rest => lexFuel fuel rest
    | .found token rest => token :: lexFuel fuel rest

/-- The C string that `sql.c_str()` is to the scanner. -/
def cString (text : List Char) : List Char := text.takeWhile (· != '\x00')

def lex (text : List Char) : List Token := lexFuel ((cString text).length + 1) (cString text)

theorem after_comment_length (text : List Char) : (afterComment text).length ≤ text.length := by
  fun_induction afterComment text with
  | case1 => exact Nat.le_refl _
  | case2 rest => simp only [length_cons]; omega
  | case3 _ rest _ ih => simp only [length_cons]; omega

theorem quoted_length {quote : Char} {text : List Char} {found : List Char × List Char}
    (closed : quoted quote text = some found) : found.2.length < text.length := by
  fun_induction quoted quote text generalizing found with
  | case1 => cases closed
  | case2 => cases closed
  | case3 => cases closed
  | case4 char rest _ ih | case9 char rest _ _ _ ih =>
    obtain ⟨inner, inside, rfl⟩ := map_eq_some_iff.mp closed
    have := ih inside
    simp only [length_cons]
    omega
  | case5 => cases closed; simp
  | case6 after inner inside _ _ ih =>
    have := ih inside
    cases closed
    simp only [length_cons]
    omega
  | case7 => cases closed; simp
  | case8 => cases closed; simp

def Scan.rest : Scan → List Char
  | .stop => []
  | .skip rest => rest
  | .found _ rest => rest

theorem scan_number_shorter {char : Char} (rest : List Char) (digit : char.isDigit = true) :
    (scanNumber (char :: rest)).rest.length < (char :: rest).length := by
  have dropped : ((char :: rest).dropWhile Char.isDigit).length ≤ rest.length := by
    rw [dropWhile_cons_of_pos digit]
    exact (dropWhile_sublist _).length_le
  unfold scanNumber
  split
  · rename_i next after point
    have fraction : (after.dropWhile Char.isDigit).length ≤ after.length :=
      (dropWhile_sublist _).length_le
    rw [point] at dropped
    simp only [length_cons] at dropped ⊢
    split
    · simp only [Scan.rest]
      omega
    · simp only [Scan.rest, length_cons]
      omega
  · simp only [Scan.rest, length_cons]
    omega

theorem scan_quoted_shorter (quote : Char) (rest : List Char) :
    (scanQuoted quote rest).rest.length < (quote :: rest).length := by
  unfold scanQuoted
  split
  · rename_i found closed
    have := quoted_length closed
    simp only [Scan.rest, length_cons]
    omega
  · simp [Scan.rest]

theorem scan_symbol_shorter (char : Char) (rest : List Char) :
    (scanSymbol char rest).rest.length < (char :: rest).length := by
  unfold scanSymbol
  split
  all_goals try split
  all_goals
    simp only [Scan.rest, length_cons, length_nil]
    omega

theorem scan_shorter (char : Char) (rest : List Char) :
    (scan (char :: rest)).rest.length < (char :: rest).length := by
  unfold scan
  split
  · rename_i empty
    cases empty
  · rename_i after same
    obtain ⟨rfl, rfl⟩ := cons.inj same
    have := (dropWhile_sublist (l := after) (· != '\n')).length_le
    simp only [Scan.rest, length_cons]
    omega
  · rename_i after same
    obtain ⟨rfl, rfl⟩ := cons.inj same
    have := after_comment_length after
    simp only [Scan.rest, length_cons]
    omega
  · rename_i first after _ _ same
    obtain ⟨rfl, rfl⟩ := cons.inj same
    have := (dropWhile_sublist (l := rest) isIdRest).length_le
    split_ifs with blank digit start quote
    · simp [Scan.rest]
    · exact scan_number_shorter rest digit
    · simp only [Scan.rest, length_cons]
      omega
    · exact scan_quoted_shorter char rest
    · exact scan_symbol_shorter char rest

theorem lex_fuel_enough {fuel other : Nat} {text : List Char} (enough : text.length < fuel)
    (enoughToo : text.length < other) : lexFuel fuel text = lexFuel other text := by
  induction fuel generalizing other text with
  | zero => omega
  | succ fuel ih =>
    obtain ⟨other, rfl⟩ : ∃ smaller, other = smaller + 1 := ⟨other - 1, by omega⟩
    cases text with
    | nil => rfl
    | cons char rest =>
      have shorter := scan_shorter char rest
      simp only [length_cons] at enough enoughToo shorter
      simp only [lexFuel]
      cases scanned : scan (char :: rest) with
      | stop => rfl
      | skip after =>
        rw [scanned] at shorter
        simp only [Scan.rest] at shorter
        exact ih (by omega) (by omega)
      | found token after =>
        rw [scanned] at shorter
        simp only [Scan.rest] at shorter
        exact congrArg (token :: ·) (ih (by omega) (by omega))

end CsuDbms.SqlParserModel

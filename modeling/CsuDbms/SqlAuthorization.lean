import CsuDbms.SqlParser
import CsuDbms.SystemCatalogModel

/-!
# Authorization of SQL texts

`DatabaseService::authorize_sql` looks at the text with regular expressions:
one for the first word, one for the name of one table. What runs is what the
parser reads. The check is sound for a text when the table that the regular
expression finds is the only one the parsed statement touches, or when it finds
none and a privilege on the whole database is asked for.
-/

namespace CsuDbms.SqlParserModel

open SystemCatalogModel List Option PrivilegeGrant

def isSpace (char : Char) : Bool :=
  char == ' ' || char == '\t' || char == '\n' || char == '\x0b' || char == '\x0c' || char == '\r'

def isResourceRest (char : Char) : Bool := isIdRest char || char == '.'

/-- What follows the upper-case word at the front of the text, in any case. -/
def matchWord (word : String) (text : List Char) : Option (List Char) :=
  if (text.take word.length).map Char.toUpper = word.toList then some (text.drop word.length)
  else none

/-- `\s+([A-Za-z_][A-Za-z0-9_\.]*)` at the front of the text. -/
def captureResource (text : List Char) : Option (List Char) :=
  if (text.takeWhile isSpace).isEmpty then none
  else
    match text.dropWhile isSpace with
    | [] => none
    | start :: rest =>
      if isIdStart start then some (start :: rest.takeWhile isResourceRest) else none

/-- One of the words and a resource at the front of the text. -/
def matchResource (words : List String) (text : List Char) : Option (List Char) :=
  words.findSome? fun word => (matchWord word text).bind captureResource

def searchResource (words : List String) (boundary : Bool) : List Char → Option (List Char)
  | [] => none
  | char :: rest =>
    match if boundary then matchResource words (char :: rest) else none with
    | some resource => some resource
    | none => searchResource words (!isIdRest char) rest

def extractTable (text : List Char) (verb : String) : Option (List Char) :=
  if verb = "SELECT" ∨ verb = "DELETE" then searchResource ["FROM"] true text
  else if verb = "INSERT" then searchResource ["INTO"] true text
  else if verb = "UPDATE" then matchResource ["UPDATE"] (text.dropWhile isSpace)
  else if verb = "DESC" ∨ verb = "DESCRIBE" then
    matchResource ["DESC", "DESCRIBE"] (text.dropWhile isSpace)
  else searchResource ["TABLE", "ON"] true text

def splitResource (resource : List Char) (database : String) : String × String :=
  match resource.dropWhile (· != '.') with
  | [] => (database, String.ofList resource)
  | _ :: table => (String.ofList (resource.takeWhile (· != '.')), String.ofList table)

/-- `^\s*([A-Za-z]+)`, in upper case. -/
def firstWord (text : List Char) : Option String :=
  match (text.dropWhile isSpace).takeWhile Char.isAlpha with
  | [] => none
  | word => some (String.ofList (word.map Char.toUpper))

inductive VerbCheck where
  | exempt
  | needs (privilege : Privilege)
  | rootOnly
  deriving DecidableEq, Repr

def verbCheck (verb : String) : VerbCheck :=
  if verb ∈ ["BEGIN", "COMMIT", "ROLLBACK", "HELP", "EXIT", "CALC"] then .exempt
  else if verb ∈ ["SELECT", "SHOW", "DESC", "DESCRIBE", "EXPLAIN"] then .needs .select
  else if verb = "INSERT" then .needs .insert
  else if verb = "UPDATE" then .needs .update
  else if verb = "DELETE" then .needs .delete
  else if verb = "CREATE" then .needs .create
  else if verb = "DROP" then .needs .drop
  else .rootOnly

/-- The database and the table that the privilege is asked for; without a
match the table is empty. -/
def checkedResource (text : List Char) (verb database : String) : String × String :=
  match extractTable text verb with
  | some resource => splitResource resource database
  | none => (database, "")

def denialName : Privilege → String
  | .insert => "INSERT"
  | .update => "UPDATE"
  | .delete => "DELETE"
  | .create => "CREATE"
  | .drop => "DROP"
  | _ => "SELECT"

/-- `DatabaseService::authorize_sql`, with the reason of a refusal. -/
def authorizeSql {Salt Hash : Type} (catalog : SystemCatalog Salt Hash)
    (username database : String) (text : List Char) : Except String Unit :=
  if username = rootName then .ok ()
  else
    match firstWord text with
    | none => .error "empty or invalid SQL"
    | some verb =>
      match verbCheck verb with
      | .exempt => .ok ()
      | .rootOnly =>
        .error "command requires root until an explicit privilege mapping is defined"
      | .needs privilege =>
        let resource := checkedResource text verb database
        if catalog.allowed username privilege resource.1 resource.2 then .ok ()
        else
          .error (denialName privilege ++ " denied on " ++ resource.1 ++
            if resource.2.isEmpty then "" else "." ++ resource.2)

/-- The privilege for each kind of statement; there is none for the statements
that touch no table and for those only root may run. -/
def ParsedSqlNode.privilege : ParsedSqlNode → Option Privilege
  | .select .. | .showTables | .descTable _ | .explain _ => some .select
  | .insert _ => some .insert
  | .update .. => some .update
  | .delete .. => some .delete
  | .createTable _ | .createIndex _ => some .create
  | .dropTable _ | .dropIndex _ => some .drop
  | .calc | .analyzeTable _ | .sync | .begin | .commit | .rollback | .loadData _ | .setVariable
  | .help | .exit => none

/-- The grants are those that `GRANT` commands build. -/
def Granted {Salt Hash : Type} (catalog : SystemCatalog Salt Hash) : Prop :=
  ∀ grant ∈ catalog.grants, ∃ privileges resource username,
    grant = privilegeGrant privileges resource username

def SoundFor (Salt Hash : Type) (database : String) (text : List Char) : Prop :=
  ∀ (catalog : SystemCatalog Salt Hash) (username : String), Granted catalog →
    username ≠ rootName → authorizeSql catalog username database text = .ok () →
    ∀ node, parse text = some node → ∀ table ∈ node.tables,
      ∃ privilege, node.privilege = some privilege ∧
        catalog.allowed username privilege database table = true

/-- The table that is checked is the only one the statement touches, or no
grant can name it, so that the whole database is checked. -/
def ChecksItsTables (database : String) (text : List Char) : Prop :=
  ∀ node verb privilege, parse text = some node → firstWord text = some verb →
    verbCheck verb = .needs privilege → ∀ table ∈ node.tables,
      (checkedResource text verb database).1 = database ∧
        ((checkedResource text verb database).2 = table ∨
          isIdentifier (checkedResource text verb database).2 = false)

variable {tokens rest : List Token} {node : ParsedSqlNode}

theorem select_stmt_node
    (parsed : selectStmt tokens = some (node, rest)) : node.privilege = some .select := by
  simp only [selectStmt, bind_eq_bind, bind_eq_some_iff, some.injEq, Prod.mk.injEq] at parsed
  obtain ⟨_, _, _, _, _, _, _, _, _, _, _, _, _, _, rfl, _⟩ := parsed
  rfl

theorem insert_stmt_node
    (parsed : insertStmt tokens = some (node, rest)) : node.privilege = some .insert := by
  unfold insertStmt at parsed
  split at parsed
  · simp only [bind_eq_bind, bind_eq_some_iff, some.injEq, Prod.mk.injEq] at parsed
    obtain ⟨_, _, _, _, rfl, _⟩ := parsed
    rfl
  · simp only [bind_eq_bind, bind_eq_some_iff, some.injEq, Prod.mk.injEq] at parsed
    obtain ⟨_, _, rfl, _⟩ := parsed
    rfl
  · cases parsed

theorem update_stmt_node
    (parsed : updateStmt tokens = some (node, rest)) : node.privilege = some .update := by
  unfold updateStmt at parsed
  split at parsed
  · simp only [bind_eq_bind, bind_eq_some_iff, some.injEq, Prod.mk.injEq] at parsed
    obtain ⟨_, _, _, _, rfl, _⟩ := parsed
    rfl
  · cases parsed

theorem delete_stmt_node
    (parsed : deleteStmt tokens = some (node, rest)) : node.privilege = some .delete := by
  unfold deleteStmt at parsed
  split at parsed
  · simp only [bind_eq_bind, bind_eq_some_iff, some.injEq, Prod.mk.injEq] at parsed
    obtain ⟨_, _, rfl, _⟩ := parsed
    rfl
  · cases parsed

theorem create_stmt_node
    (parsed : createStmt tokens = some (node, rest)) : node.privilege = some .create := by
  unfold createStmt at parsed
  split at parsed
  · simp only [createTableStmt, bind_eq_bind, bind_eq_some_iff, some.injEq,
      Prod.mk.injEq] at parsed
    obtain ⟨_, _, _, _, _, _, _, _, _, _, rfl, _⟩ := parsed
    rfl
  · cases parsed
    rfl
  · cases parsed

theorem drop_stmt_node
    (parsed : dropStmt tokens = some (node, rest)) : node.privilege = some .drop := by
  unfold dropStmt at parsed
  split at parsed
  · cases parsed
    rfl
  · cases parsed
    rfl
  · cases parsed

structure Fits (check : VerbCheck) (node : ParsedSqlNode) : Prop where
  exempt : check = .exempt → node.tables = []
  needs : ∀ privilege, check = .needs privilege → node.privilege = some privilege

theorem fits_exempt (none : node.tables = []) : Fits .exempt node :=
  ⟨fun _ => none, nofun⟩

variable {privilege : Privilege}

theorem fits_needs (same : node.privilege = some privilege) : Fits (.needs privilege) node where
  exempt := nofun
  needs := by
    rintro _ ⟨⟩
    exact same

theorem fits_root_only (node : ParsedSqlNode) : Fits .rootOnly node :=
  ⟨nofun, nofun⟩

theorem command_wrapper_head (parsed : commandWrapper tokens = some (node, rest)) :
    ∃ keyword more, tokens = .keyword keyword :: more ∧ Fits (verbCheck keyword.name) node := by
  unfold commandWrapper at parsed
  split at parsed
  case h_1 more =>
    obtain ⟨_, _, found⟩ := map_eq_some_iff.mp parsed
    cases found
    exact ⟨.calc, more, rfl, fits_exempt rfl⟩
  case h_2 more => exact ⟨.select, more, rfl, fits_needs (select_stmt_node parsed)⟩
  case h_3 more => exact ⟨.insert, more, rfl, fits_needs (insert_stmt_node parsed)⟩
  case h_4 more => exact ⟨.update, more, rfl, fits_needs (update_stmt_node parsed)⟩
  case h_5 more => exact ⟨.delete, more, rfl, fits_needs (delete_stmt_node parsed)⟩
  case h_6 more => exact ⟨.create, more, rfl, fits_needs (create_stmt_node parsed)⟩
  case h_7 more => exact ⟨.drop, more, rfl, fits_needs (drop_stmt_node parsed)⟩
  case h_8 => exact ⟨.analyze, _, rfl, fits_root_only node⟩
  case h_9 =>
    cases parsed
    exact ⟨.showKey, _, rfl, fits_needs rfl⟩
  case h_10 =>
    cases parsed
    exact ⟨.desc, _, rfl, fits_needs rfl⟩
  case h_11 => exact ⟨.sync, _, rfl, fits_root_only node⟩
  case h_12 | h_13 | h_14 | h_18 | h_19 =>
    cases parsed
    exact ⟨_, _, rfl, fits_exempt rfl⟩
  case h_15 => exact ⟨.load, _, rfl, fits_root_only node⟩
  case h_16 =>
    obtain ⟨_, _, found⟩ := map_eq_some_iff.mp parsed
    cases found
    exact ⟨.explain, _, rfl, fits_needs rfl⟩
  case h_17 => exact ⟨.set, _, rfl, fits_root_only node⟩
  case h_20 => cases parsed

variable {text : List Char}

theorem take_while_narrow {wide narrow : Char → Bool} (implies : ∀ char, narrow char → wide char)
    (all : ∀ char ∈ text.takeWhile wide, narrow char = true) :
    text.takeWhile narrow = text.takeWhile wide := by
  induction text with
  | nil => rfl
  | cons char rest ih =>
    by_cases inside : wide char = true
    · rw [takeWhile_cons_of_pos inside] at all ⊢
      rw [takeWhile_cons_of_pos (all char mem_cons_self)]
      rw [ih fun other member => all other (mem_cons_of_mem _ member)]
    · have outside : ¬narrow char = true := fun within => inside (implies char within)
      rw [takeWhile_cons_of_neg inside, takeWhile_cons_of_neg outside]

theorem keyword_letters (keyword : Keyword) : keyword.name.toList.all Char.isAlpha = true := by
  cases keyword <;> rfl

variable {char : Char}

theorem alpha_of_upper (upper : char.toUpper.isAlpha = true) :
    char.isAlpha = true := by
  by_cases lower : char.isLower = true
  · simp [Char.isAlpha, lower]
  · have same : char.toUpper = char := by
      unfold Char.toUpper
      unfold Char.isLower at lower
      split
      · rename_i within
        exact absurd (by simpa using within) lower
      · rfl
    exact same ▸ upper

variable {keyword : Keyword}

theorem word_token_keyword {word : List Char} (token : wordToken word = .keyword keyword) :
    keyword.name = String.ofList (word.map Char.toUpper) := by
  unfold wordToken at token
  split at token
  · rename_i found search
    cases token
    simpa using find?_some search
  · cases token

theorem keyword_word_letters {word : List Char}
    (token : wordToken word = .keyword keyword) : ∀ char ∈ word, char.isAlpha = true := by
  intro char member
  have letters := keyword_letters keyword
  rw [word_token_keyword token, String.toList_ofList, List.all_map, List.all_eq_true] at letters
  exact alpha_of_upper (letters char member)

theorem scan_word (rest : List Char) (letter : char.isAlpha = true) :
    scan (char :: rest) =
      .found (wordToken (char :: rest.takeWhile isIdRest)) (rest.dropWhile isIdRest) := by
  have notDash : char ≠ '-' := by rintro rfl; exact absurd letter (by decide)
  have notSlash : char ≠ '/' := by rintro rfl; exact absurd letter (by decide)
  have notBlank : isBlank char = false := by
    by_contra blank
    simp only [isBlank, Bool.not_eq_false, Bool.or_eq_true, beq_iff_eq] at blank
    rcases blank with (((rfl | rfl) | rfl) | rfl) | rfl <;> exact absurd letter (by decide)
  have notDigit : char.isDigit = false := by
    by_contra digit
    simp only [Char.isAlpha, Char.isUpper, Char.isLower, Char.isDigit, Bool.not_eq_false,
      Bool.or_eq_true, Bool.and_eq_true, decide_eq_true_eq, ge_iff_le,
      UInt32.le_iff_toNat_le] at letter digit
    have nine : '9'.val.toNat = 57 := rfl
    have upper : 'A'.val.toNat = 65 := rfl
    have lower : 'a'.val.toNat = 97 := rfl
    omega
  unfold scan
  split <;> simp_all [isIdStart]

theorem scan_blank (rest : List Char) (blank : isBlank char = true) :
    scan (char :: rest) = .skip rest := by
  simp only [isBlank, Bool.or_eq_true, beq_iff_eq] at blank
  rcases blank with (((rfl | rfl) | rfl) | rfl) | rfl <;> rfl

theorem scan_other_space (rest : List Char) (space : isSpace char = true)
    (notBlank : isBlank char = false) : scan (char :: rest) = .found (.char char) rest := by
  simp only [isSpace, Bool.or_eq_true, beq_iff_eq] at space
  rcases space with ((((rfl | rfl) | rfl) | rfl) | rfl) | rfl <;>
    first | rfl | exact absurd notBlank (by decide)

variable {verb : String}

theorem lex_first_word {fuel : Nat} {more : List Token}
    (lexed : lexFuel fuel text = .keyword keyword :: more)
    (word : firstWord text = some verb) : keyword.name = verb := by
  induction text generalizing fuel with
  | nil => cases word
  | cons char rest ih =>
    cases fuel with
    | zero => cases lexed
    | succ fuel =>
      by_cases space : isSpace char = true
      · have same : firstWord (char :: rest) = firstWord rest := by
          simp only [firstWord, dropWhile_cons_of_pos space]
        by_cases blank : isBlank char = true
        · simp only [lexFuel, scan_blank rest blank] at lexed
          exact ih lexed (same ▸ word)
        · simp only [lexFuel, scan_other_space rest space (by simpa using blank)] at lexed
          cases lexed
      simp only [firstWord, dropWhile_cons_of_neg space] at word
      by_cases letter : char.isAlpha = true
      · simp only [lexFuel, scan_word rest letter, cons.injEq] at lexed
        have token := lexed.1
        have letters := keyword_word_letters token
        have wide : isIdRest char = true := by simp [isIdRest, Char.isAlphanum, letter]
        have narrowed : (char :: rest).takeWhile Char.isAlpha =
            char :: rest.takeWhile isIdRest := by
          rw [← takeWhile_cons_of_pos wide]
          apply take_while_narrow
          · intro other alpha
            simp [isIdRest, Char.isAlphanum, alpha]
          · rw [takeWhile_cons_of_pos wide]
            exact letters
        rw [narrowed] at word
        rw [word_token_keyword token]
        exact some.inj word
      · rw [takeWhile_cons_of_neg letter] at word
        cases word

theorem first_word_c_string
    (word : firstWord text = some verb) : firstWord (cString text) = some verb := by
  induction text with
  | nil => cases word
  | cons char rest ih =>
    have notNul : char ≠ '\x00' := by
      rintro rfl
      cases word
    have kept : cString (char :: rest) = char :: cString rest := by
      simp [cString, notNul]
    rw [kept]
    by_cases space : isSpace char = true
    · simp only [firstWord, dropWhile_cons_of_pos space] at word ⊢
      exact ih word
    · have same : (char :: cString rest).takeWhile Char.isAlpha =
          (char :: rest).takeWhile Char.isAlpha := by
        rw [← kept, cString, takeWhile_takeWhile]
        congr 1
        funext other
        by_cases alpha : other.isAlpha = true
        · have : other ≠ '\x00' := by
            rintro rfl
            exact absurd alpha (by decide)
          simp [alpha, this]
        · simp [alpha]
      simp only [firstWord, dropWhile_cons_of_neg space, same] at word ⊢
      exact word

theorem verb_fits (parsed : parse text = some node) (word : firstWord text = some verb) :
    Fits (verbCheck verb) node := by
  unfold parse at parsed
  split at parsed
  · rename_i first others commands
    cases parsed
    cases tokens : lex text with
    | nil =>
      rw [tokens] at commands
      cases commands
    | cons token more =>
      rw [tokens] at commands
      simp only [length_cons, commandsFuel, bind_eq_bind, bind_eq_some_iff,
        some.injEq, cons.injEq] at commands
      obtain ⟨⟨head, rest⟩, wrapped, _, _, rfl, _⟩ := commands
      obtain ⟨keyword, after, same, fits⟩ := command_wrapper_head wrapped
      rw [same] at tokens
      rw [← lex_first_word tokens (first_word_c_string word)]
      exact fits
  · cases parsed

def IsResource (resource : List Char) : Prop :=
  ∃ start rest, resource = start :: rest ∧ isIdStart start = true ∧
    ∀ char ∈ rest, isResourceRest char = true

variable {resource : List Char}

theorem capture_resource_shape
    (captured : captureResource text = some resource) : IsResource resource := by
  unfold captureResource at captured
  split at captured
  · cases captured
  · split at captured
    · cases captured
    · rename_i start rest _
      split at captured
      · rename_i valid
        cases captured
        exact ⟨start, _, rfl, valid, fun char member => mem_takeWhile_imp member⟩
      · cases captured

theorem match_resource_shape {words : List String}
    (matched : matchResource words text = some resource) : IsResource resource := by
  obtain ⟨word, -, found⟩ := exists_of_findSome?_eq_some matched
  obtain ⟨rest, -, captured⟩ := bind_eq_some_iff.mp found
  exact capture_resource_shape captured

theorem search_resource_shape {words : List String} {boundary : Bool}
    (found : searchResource words boundary text = some resource) : IsResource resource := by
  induction text generalizing boundary with
  | nil => cases found
  | cons char rest ih =>
    unfold searchResource at found
    split at found
    · rename_i hit matched
      cases found
      split at matched
      · exact match_resource_shape matched
      · cases matched
    · exact ih found

theorem extract_table_shape
    (extracted : extractTable text verb = some resource) : IsResource resource := by
  unfold extractTable at extracted
  split_ifs at extracted
  all_goals
    first
    | exact search_resource_shape extracted
    | exact match_resource_shape extracted

variable {database : String}

theorem split_resource_database (shape : IsResource resource)
    (other : (splitResource resource database).1 ≠ database) :
    isIdentifier (splitResource resource database).1 = true := by
  obtain ⟨start, rest, rfl, valid, within⟩ := shape
  unfold splitResource at other ⊢
  split
  · rename_i whole
    simp [whole] at other
  · have notDot : start ≠ '.' := by
      rintro rfl
      exact absurd valid (by decide)
    have front : (start :: rest).takeWhile (· != '.') = start :: rest.takeWhile (· != '.') := by
      simp [notDot]
    rw [front, isIdentifier, String.toList_ofList]
    simp only [Bool.and_eq_true, List.all_eq_true]
    refine ⟨valid, fun char member => ?_⟩
    have inside := within char ((List.takeWhile_sublist _).subset member)
    have notDot : char ≠ '.' := by simpa using List.mem_takeWhile_imp member
    simpa [isResourceRest, isIdRest, notDot] using inside

theorem checked_database (other : (checkedResource text verb database).1 ≠ database) :
    isIdentifier (checkedResource text verb database).1 = true := by
  unfold checkedResource at other ⊢
  split
  · rename_i resource extracted
    rw [extracted] at other
    exact split_resource_database (extract_table_shape extracted) other
  · rename_i missing
    rw [missing] at other
    exact absurd rfl other

variable {Salt Hash : Type}

def oneGrant (Salt Hash : Type) (privilege : Privilege) (resource : Resource) :
    SystemCatalog Salt Hash where
  nextUserId := 0
  users := []
  databases := []
  grants := [privilegeGrant [privilege] resource "guest"]

theorem authorize_sql_ok {catalog : SystemCatalog Salt Hash} {username : String}
    (notRoot : username ≠ rootName) :
    authorizeSql catalog username database text = .ok () ↔
      ∃ verb, firstWord text = some verb ∧
        (verbCheck verb = .exempt ∨ ∃ privilege, verbCheck verb = .needs privilege ∧
          catalog.allowed username privilege (checkedResource text verb database).1
            (checkedResource text verb database).2 = true) := by
  unfold authorizeSql
  rw [if_neg notRoot]
  cases firstWord text with
  | none => simp
  | some verb =>
    cases check : verbCheck verb with
    | exempt => simp [check]
    | rootOnly => simp [check]
    | needs privilege =>
      simp only [some.injEq, exists_eq_left', check]
      split <;> simp_all

theorem node_privilege_ne_connect
    (kind : node.privilege = some privilege) : privilege ≠ .connect := by
  rintro rfl
  cases node <;> cases kind

theorem allowed_table {catalog : SystemCatalog Salt Hash} {username : String}
    (granted : Granted catalog) (notRoot : username ≠ rootName)
    (notConnect : privilege ≠ .connect) {checked table : String}
    (covers : checked = table ∨ isIdentifier checked = false)
    (allowed : catalog.allowed username privilege database checked = true) :
    catalog.allowed username privilege database table = true := by
  rw [allowed_iff notRoot] at allowed ⊢
  obtain ⟨grant, member, owner, allows⟩ := allowed
  refine ⟨grant, member, owner, ?_⟩
  rw [allows_iff] at allows ⊢
  have inside := allows.resolve_left fun connect => notConnect connect.1
  refine .inr ⟨?_, inside.2⟩
  obtain ⟨privileges, resource, name, rfl⟩ := granted grant member
  have matched := inside.1
  cases resource with
  | global => rfl
  | database name valid => exact matched
  | table name tableName valid validTable =>
    rcases covers with rfl | foreign
    · exact matched
    · simp only [resourceMatches, privilegeGrant, Resource.scope,
        Resource.databaseName, Resource.tableName, Bool.and_eq_true, beq_iff_eq] at matched
      rw [matched.2, foreign] at validTable
      cases validTable

theorem one_grant_allowed (privilege : Privilege) (resource : Resource) (database table : String)
    (notConnect : privilege ≠ .connect) :
    (oneGrant Salt Hash privilege resource).allowed "guest" privilege database table =
      (privilegeGrant [privilege] resource "guest").resourceMatches database table := by
  simp [SystemCatalog.allowed, oneGrant, allows, privilegeGrant, rootName,
    notConnect]

theorem one_grant_granted (privilege : Privilege) (resource : Resource) :
    Granted (oneGrant Salt Hash privilege resource) := by
  intro grant member
  exact ⟨[privilege], resource, "guest", by simpa [oneGrant] using member⟩

theorem sound_one_grant (sound : SoundFor Salt Hash database text) (parsed : parse text = some node)
    (word : firstWord text = some verb) (check : verbCheck verb = .needs privilege)
    {table : String} (member : table ∈ node.tables) (resource : Resource)
    (matched : (privilegeGrant [privilege] resource "guest").resourceMatches
      (checkedResource text verb database).1 (checkedResource text verb database).2 = true) :
    (privilegeGrant [privilege] resource "guest").resourceMatches database table = true := by
  have kind := (verb_fits parsed word).needs privilege check
  have notConnect := node_privilege_ne_connect kind
  have authorized : authorizeSql (oneGrant Salt Hash privilege resource) "guest" database text =
      .ok () := by
    rw [authorize_sql_ok (by decide)]
    refine ⟨verb, word, .inr ⟨privilege, check, ?_⟩⟩
    rw [one_grant_allowed _ _ _ _ notConnect, matched]
  obtain ⟨needed, same, allowed⟩ := sound _ "guest" (one_grant_granted privilege resource)
    (by decide) authorized node parsed table member
  obtain rfl : needed = privilege := some.inj (same.symm.trans kind)
  rwa [one_grant_allowed _ _ _ _ notConnect] at allowed

theorem authorization_sound_iff (Salt Hash : Type) (text : List Char) {database : String}
    (named : isIdentifier database = true) :
    SoundFor Salt Hash database text ↔ ChecksItsTables database text := by
  constructor
  · intro sound node verb privilege parsed word check table member
    have sameDatabase : (checkedResource text verb database).1 = database := by
      by_contra other
      have matched := sound_one_grant sound parsed word check member
        (.database _ (checked_database other))
        (by simp [resourceMatches, privilegeGrant, Resource.scope,
          Resource.databaseName])
      simp only [resourceMatches, privilegeGrant, Resource.scope,
        Resource.databaseName, beq_iff_eq] at matched
      exact other matched
    refine ⟨sameDatabase, ?_⟩
    by_contra differs
    simp only [not_or, Bool.not_eq_false] at differs
    have matched := sound_one_grant sound parsed word check member
      (.table database _ named differs.2)
      (by simp [resourceMatches, privilegeGrant, Resource.scope,
        Resource.databaseName, Resource.tableName, sameDatabase])
    simp only [resourceMatches, privilegeGrant, Resource.scope,
      Resource.databaseName, Resource.tableName, Bool.and_eq_true, beq_iff_eq] at matched
    exact differs.1 matched.2
  · intro checks catalog username granted notRoot authorized node parsed table member
    obtain ⟨verb, word, outcome⟩ := (authorize_sql_ok notRoot).mp authorized
    have fits := verb_fits parsed word
    rcases outcome with exempt | ⟨privilege, check, allowed⟩
    · rw [fits.exempt exempt] at member
      cases member
    · have kind := fits.needs privilege check
      obtain ⟨sameDatabase, covers⟩ := checks node verb privilege parsed word check table member
      rw [sameDatabase] at allowed
      exact ⟨privilege, kind,
        allowed_table granted notRoot (node_privilege_ne_connect kind) covers allowed⟩

theorem authorization_sound_one_table :
    isIdentifier "shop" = true ∧
      SoundFor Unit Unit "shop" "select id FROM a where id = 'x FROM b'".toList := by
  refine ⟨by decide, (authorization_sound_iff Unit Unit _ (by decide)).mpr ?_⟩
  intro node verb privilege parsed word check table member
  have reads : parse "select id FROM a where id = 'x FROM b'".toList =
      some (.select ["a"] []) := by
    decide +kernel
  have first : firstWord "select id FROM a where id = 'x FROM b'".toList = some "SELECT" := by
    decide +kernel
  obtain rfl : _ = node := some.inj (reads.symm.trans parsed)
  obtain rfl : _ = verb := some.inj (first.symm.trans word)
  obtain rfl : table = "a" := by simpa [ParsedSqlNode.tables] using member
  exact ⟨by decide +kernel, .inl (by decide +kernel)⟩

/-- Texts of a user whose only grant is `SELECT` on `shop.a`, and which read `b`. The check finds
`a` as the first of several tables, in a literal, in a comment, and as the column after an `ON`. -/
def uncheckedReads : List String :=
  ["SELECT * FROM a, b", "SELECT 'x FROM a' FROM b", "SELECT * FROM/* FROM a */b",
    "EXPLAIN SELECT * FROM b JOIN c ON a = 1"]

def guestOfA : SystemCatalog Unit Unit :=
  oneGrant Unit Unit .select (.table "shop" "a" (by decide) (by decide))

/-- The text passes the check and its statement selects from `b`. -/
def ReadsUnchecked (text : String) : Prop :=
  (authorizeSql guestOfA "guest" "shop" text.toList).isOk = true ∧
    ∃ node ∈ parse text.toList, node.privilege = some .select ∧ "b" ∈ node.tables

instance (text : String) : Decidable (ReadsUnchecked text) :=
  inferInstanceAs (Decidable (_ ∧ ∃ node ∈ parse text.toList, _))

theorem unchecked_reads_unsound :
    ∀ text ∈ uncheckedReads, ¬SoundFor Unit Unit "shop" text.toList := by
  have runs : ∀ text ∈ uncheckedReads, ReadsUnchecked text := by decide +kernel
  intro text member sound
  obtain ⟨passes, node, parsed, kind, reads⟩ := runs text member
  have authorized : authorizeSql guestOfA "guest" "shop" text.toList = .ok () := by
    cases outcome : authorizeSql guestOfA "guest" "shop" text.toList with
    | ok _ => rfl
    | error reason =>
      rw [outcome] at passes
      cases passes
  obtain ⟨privilege, needed, allowed⟩ := sound guestOfA "guest"
    (one_grant_granted .select _) (by decide) authorized node parsed "b" reads
  obtain rfl : _ = privilege := some.inj (kind.symm.trans needed)
  exact absurd allowed (by decide)

theorem authorization_lets_unchecked_reads_through :
    ¬ ∀ text : String, SoundFor Unit Unit "shop" text.toList := by
  intro sound
  exact unchecked_reads_unsound "SELECT * FROM a, b" (by simp [uncheckedReads]) (sound _)

end CsuDbms.SqlParserModel

import CsuDbms.SqlLexer

/-!
# From tokens to a statement

The grammar of `yacc_sql.y`, read from left to right. Each function takes the
tokens and gives back what it did not use; an operator, a comma or a direction
that can be taken is taken, as the generated parser shifts. Of a statement only
the parts below are kept: its kind, the tables it names, and the conditions of
`DELETE` and `UPDATE`. Expressions are recognised. The number of tokens bounds
the depth of every recursion, because each call uses one.
-/

namespace CsuDbms.SqlParserModel

inductive CompOp where
  | equalTo | lessThan | greatThan | lessEqual | greatEqual | notEqual
  deriving DecidableEq, Repr

inductive Value where
  | number (digits : String)
  | float (digits : String)
  | chars (quoted : String)
  | null
  deriving DecidableEq, Repr

inductive Operand where
  | attr (relationName attributeName : String)
  | value (value : Value)
  deriving DecidableEq, Repr

structure ConditionSqlNode where
  left : Operand
  comp : CompOp
  right : Operand
  deriving DecidableEq, Repr

inductive ParsedSqlNode where
  | calc
  | select (relations joins : List String)
  | insert (relation : String)
  | update (relation : String) (conditions : List ConditionSqlNode)
  | delete (relation : String) (conditions : List ConditionSqlNode)
  | createTable (relation : String)
  | dropTable (relation : String)
  | analyzeTable (relation : String)
  | showTables
  | descTable (relation : String)
  | createIndex (relation : String)
  | dropIndex (relation : String)
  | sync
  | begin
  | commit
  | rollback
  | loadData (relation : String)
  | explain (node : ParsedSqlNode)
  | setVariable
  | help
  | exit
  deriving DecidableEq, Repr

def ParsedSqlNode.tables : ParsedSqlNode → List String
  | .select relations joins => relations ++ joins
  | .insert relation | .update relation _ | .delete relation _ | .createTable relation
  | .dropTable relation | .analyzeTable relation | .descTable relation | .createIndex relation
  | .dropIndex relation | .loadData relation => [relation]
  | .explain node => node.tables
  | .calc | .showTables | .sync | .begin | .commit | .rollback | .setVariable | .help | .exit => []

def expect (token : Token) : List Token → Option (List Token)
  | first :: rest => if first = token then some rest else none
  | [] => none

def identifier : List Token → Option (String × List Token)
  | .id name :: rest => some (name, rest)
  | _ => none

def value : List Token → Option (Value × List Token)
  | .number digits :: rest => some (.number digits, rest)
  | .float digits :: rest => some (.float digits, rest)
  | .sss quoted :: rest => some (.chars quoted, rest)
  | .keyword .nullT :: rest => some (.null, rest)
  | _ => none

def compOp : List Token → Option (CompOp × List Token)
  | .eq :: rest => some (.equalTo, rest)
  | .lt :: rest => some (.lessThan, rest)
  | .gt :: rest => some (.greatThan, rest)
  | .le :: rest => some (.lessEqual, rest)
  | .ge :: rest => some (.greatEqual, rest)
  | .ne :: rest => some (.notEqual, rest)
  | _ => none

def isArithmetic (token : Token) : Bool :=
  token = .char '+' || token = .char '-' || token = .char '*' || token = .char '/'

mutual

def expressionFuel : Nat → List Token → Option (List Token)
  | 0, _ => none
  | fuel + 1, tokens => do
      let rest ← operandFuel fuel tokens
      match rest with
      | operator :: more =>
        if isArithmetic operator then expressionFuel fuel more else some rest
      | [] => some []

/-- The alternatives of `expression` that do not begin with an expression. -/
def operandFuel : Nat → List Token → Option (List Token)
  | 0, _ => none
  | fuel + 1, tokens =>
    match tokens with
    | .char '-' :: more => operandFuel fuel more
    | .char '*' :: rest => some rest
    | .lbrace :: more => (expressionFuel fuel more).bind (expect .rbrace)
    | .id _ :: .lbrace :: more => (expressionFuel fuel more).bind (expect .rbrace)
    | .id _ :: .dot :: .id _ :: rest => some rest
    | .id _ :: rest => some rest
    | tokens => (value tokens).map Prod.snd

end

def expression (tokens : List Token) : Option (List Token) :=
  expressionFuel (2 * tokens.length + 2) tokens

def comparisonPredicate (tokens : List Token) : Option (List Token) := do
  match ← expression tokens with
  | .keyword .is :: .keyword .nullT :: rest => some rest
  | .keyword .is :: .keyword .not :: .keyword .nullT :: rest => some rest
  | rest => expression (← compOp rest).2

mutual

def booleanFuel : Nat → List Token → Option (List Token)
  | 0, _ => none
  | fuel + 1, tokens => do
      match ← predicateFuel fuel tokens with
      | .keyword .and :: more => booleanFuel fuel more
      | .keyword .or :: more => booleanFuel fuel more
      | rest => some rest

/-- A bracket opens a comparison or a nested condition; what it encloses is
never both an expression and a condition. -/
def predicateFuel : Nat → List Token → Option (List Token)
  | 0, _ => none
  | fuel + 1, tokens =>
    match tokens with
    | .keyword .not :: more => predicateFuel fuel more
    | .lbrace :: more =>
      (comparisonPredicate tokens).orElse fun _ =>
        (booleanFuel fuel more).bind (expect .rbrace)
    | tokens => comparisonPredicate tokens

end

def booleanExpr (tokens : List Token) : Option (List Token) :=
  booleanFuel (2 * tokens.length + 2) tokens

def expressionListFuel : Nat → List Token → Option (List Token)
  | 0, _ => none
  | fuel + 1, tokens => do
      match ← expression tokens with
      | .comma :: more => expressionListFuel fuel more
      | rest => some rest

def expressionList (tokens : List Token) : Option (List Token) :=
  expressionListFuel (tokens.length + 1) tokens

def relList : List Token → Option (List String × List Token)
  | .id name :: .comma :: more => (relList more).map fun found => (name :: found.1, found.2)
  | .id name :: rest => some ([name], rest)
  | _ => none

def joinClauseFuel : Nat → List Token → Option (List String × List Token)
  | 0, _ => none
  | fuel + 1, tokens =>
    let joined (name : String) (condition : List Token) : Option (List String × List Token) := do
      let rest ← booleanExpr condition
      let (names, rest) ← joinClauseFuel fuel rest
      some (name :: names, rest)
    match tokens with
    | .keyword .join :: .id name :: .keyword .on :: more => joined name more
    | .keyword .inner :: .keyword .join :: .id name :: .keyword .on :: more => joined name more
    | .keyword .join :: _ | .keyword .inner :: _ => none
    | tokens => some ([], tokens)

def selectWhere : List Token → Option (List Token)
  | .keyword .whereKey :: more => booleanExpr more
  | tokens => some tokens

def groupBy : List Token → Option (List Token)
  | .keyword .group :: .keyword .byKey :: more => expressionList more
  | .keyword .group :: _ => none
  | tokens => some tokens

def orderByListFuel : Nat → List Token → Option (List Token)
  | 0, _ => none
  | fuel + 1, tokens => do
      let rest ← expression tokens
      let rest := match rest with
        | .keyword .asc :: more => more
        | .keyword .desc :: more => more
        | rest => rest
      match rest with
      | .comma :: more => orderByListFuel fuel more
      | rest => some rest

def orderBy : List Token → Option (List Token)
  | .keyword .order :: .keyword .byKey :: more => orderByListFuel (more.length + 1) more
  | .keyword .order :: _ => none
  | tokens => some tokens

def selectStmt (tokens : List Token) : Option (ParsedSqlNode × List Token) := do
  let rest ← expressionList tokens
  let rest ← expect (.keyword .fromKey) rest
  let (relations, rest) ← relList rest
  let (joins, rest) ← joinClauseFuel (rest.length + 1) rest
  let rest ← selectWhere rest
  let rest ← groupBy rest
  let rest ← orderBy rest
  some (.select relations joins, rest)

def operand : List Token → Option (Operand × List Token)
  | .id relation :: .dot :: .id name :: rest => some (.attr relation name, rest)
  | .id name :: rest => some (.attr "" name, rest)
  | tokens => (value tokens).map fun found => (.value found.1, found.2)

def condition (tokens : List Token) : Option (ConditionSqlNode × List Token) := do
  let (left, rest) ← operand tokens
  let (comp, rest) ← compOp rest
  let (right, rest) ← operand rest
  some ({ left := left, comp := comp, right := right }, rest)

/-- `condition_list`, which may be empty. The list grows while the parser returns from the last
condition to the first. An `AND` with nothing after it makes it write through a null pointer and
gives no statement. -/
def conditionListFuel : Nat → List Token → Option (List ConditionSqlNode × List Token)
  | 0, _ => none
  | fuel + 1, tokens =>
    if (operand tokens).isNone then some ([], tokens)
    else do
      let (first, rest) ← condition tokens
      match rest with
      | .keyword .and :: more =>
        if (operand more).isNone then none
        else do
          let (others, rest) ← conditionListFuel fuel more
          some (others ++ [first], rest)
      | rest => some ([first], rest)

def whereClause : List Token → Option (List ConditionSqlNode × List Token)
  | .keyword .whereKey :: more => conditionListFuel (more.length + 1) more
  | tokens => some ([], tokens)

def attrList : List Token → Option (List Token)
  | .id _ :: .comma :: more => attrList more
  | .id _ :: rest => some rest
  | _ => none

def valueListFuel : Nat → List Token → Option (List Token)
  | 0, _ => none
  | fuel + 1, tokens => do
      match (← value tokens).2 with
      | .comma :: more => valueListFuel fuel more
      | rest => some rest

def isType (token : Token) : Bool :=
  token = .keyword .intT || token = .keyword .stringT || token = .keyword .floatT ||
    token = .keyword .vectorT || token = .keyword .date

def nullDef : List Token → Option (List Token)
  | .keyword .nullT :: rest => some rest
  | .keyword .not :: .keyword .nullT :: rest => some rest
  | .keyword .not :: _ => none
  | tokens => some tokens

def attrDef : List Token → Option (List Token)
  | .id _ :: type :: .lbrace :: .number _ :: .rbrace :: rest =>
    if isType type then nullDef rest else none
  | .id _ :: type :: rest => if isType type then nullDef rest else none
  | _ => none

def attrDefListFuel : Nat → List Token → Option (List Token)
  | 0, _ => none
  | fuel + 1, tokens => do
      match ← attrDef tokens with
      | .comma :: .keyword .primary :: .keyword .key :: .lbrace :: more =>
        (attrList more).bind (expect .rbrace)
      | .comma :: more => attrDefListFuel fuel more
      | rest => some rest

def storageFormat : List Token → Option (List Token)
  | .keyword .storage :: .keyword .format :: .eq :: .id _ :: rest => some rest
  | .keyword .storage :: _ => none
  | tokens => some tokens

def createTableStmt (tokens : List Token) : Option (ParsedSqlNode × List Token) := do
  let (relation, rest) ← identifier tokens
  let rest ← expect .lbrace rest
  let rest ← attrDefListFuel (rest.length + 1) rest
  let rest ← expect .rbrace rest
  let rest ← storageFormat rest
  some (.createTable relation, rest)

def insertValues (tokens : List Token) : Option (List Token) := do
  let rest ← expect (.keyword .values) tokens
  let rest ← expect .lbrace rest
  let rest ← valueListFuel (rest.length + 1) rest
  expect .rbrace rest

def insertStmt : List Token → Option (ParsedSqlNode × List Token)
  | .keyword .into :: .id relation :: .lbrace :: more => do
      let rest ← (attrList more).bind (expect .rbrace)
      let rest ← insertValues rest
      some (.insert relation, rest)
  | .keyword .into :: .id relation :: more => do
      let rest ← insertValues more
      some (.insert relation, rest)
  | _ => none

def deleteStmt : List Token → Option (ParsedSqlNode × List Token)
  | .keyword .fromKey :: .id relation :: more => do
      let (conditions, rest) ← whereClause more
      some (.delete relation conditions, rest)
  | _ => none

def updateStmt : List Token → Option (ParsedSqlNode × List Token)
  | .id relation :: .keyword .set :: .id _ :: .eq :: more => do
      let (_, rest) ← value more
      let (conditions, rest) ← whereClause rest
      some (.update relation conditions, rest)
  | _ => none

def fieldsTerminatedBy : List Token → Option (List Token)
  | .keyword .fields :: .keyword .terminated :: .keyword .byKey :: .sss _ :: rest => some rest
  | .keyword .fields :: _ => none
  | tokens => some tokens

def enclosedBy : List Token → Option (List Token)
  | .keyword .enclosed :: .keyword .byKey :: .sss _ :: rest => some rest
  | .keyword .enclosed :: _ => none
  | tokens => some tokens

def loadDataStmt : List Token → Option (ParsedSqlNode × List Token)
  | .keyword .data :: .keyword .infile :: .sss _ :: .keyword .into :: .keyword .table ::
      .id relation :: more => do
      let rest ← fieldsTerminatedBy more
      let rest ← enclosedBy rest
      some (.loadData relation, rest)
  | _ => none

def createStmt : List Token → Option (ParsedSqlNode × List Token)
  | .keyword .table :: more => createTableStmt more
  | .keyword .index :: .id _ :: .keyword .on :: .id relation :: .lbrace :: .id _ :: .rbrace ::
      rest => some (.createIndex relation, rest)
  | _ => none

def dropStmt : List Token → Option (ParsedSqlNode × List Token)
  | .keyword .table :: .id relation :: rest => some (.dropTable relation, rest)
  | .keyword .index :: .id _ :: .keyword .on :: .id relation :: rest =>
    some (.dropIndex relation, rest)
  | _ => none

def setVariableStmt : List Token → Option (ParsedSqlNode × List Token)
  | .id _ :: .eq :: more => (value more).map fun found => (.setVariable, found.2)
  | _ => none

/-- `command_wrapper`: the first token tells the statements apart. -/
def commandWrapper : List Token → Option (ParsedSqlNode × List Token)
  | .keyword .calc :: more => (expressionList more).map fun rest => (.calc, rest)
  | .keyword .select :: more => selectStmt more
  | .keyword .insert :: more => insertStmt more
  | .keyword .update :: more => updateStmt more
  | .keyword .delete :: more => deleteStmt more
  | .keyword .create :: more => createStmt more
  | .keyword .drop :: more => dropStmt more
  | .keyword .analyze :: .keyword .table :: .id relation :: rest =>
    some (.analyzeTable relation, rest)
  | .keyword .showKey :: .keyword .tables :: rest => some (.showTables, rest)
  | .keyword .desc :: .id relation :: rest => some (.descTable relation, rest)
  | .keyword .sync :: rest => some (.sync, rest)
  | .keyword .trxBegin :: rest => some (.begin, rest)
  | .keyword .trxCommit :: rest => some (.commit, rest)
  | .keyword .trxRollback :: rest => some (.rollback, rest)
  | .keyword .load :: more => loadDataStmt more
  | .keyword .explain :: more =>
    (commandWrapper more).map fun found => (.explain found.1, found.2)
  | .keyword .set :: more => setVariableStmt more
  | .keyword .help :: rest => some (.help, rest)
  | .keyword .exit :: rest => some (.exit, rest)
  | _ => none

def optSemicolon : List Token → List Token
  | .semicolon :: rest => rest
  | tokens => tokens

def commandsFuel : Nat → List Token → Option (List ParsedSqlNode)
  | _, [] => some []
  | 0, _ => none
  | fuel + 1, tokens => do
      let (node, rest) ← commandWrapper tokens
      let nodes ← commandsFuel fuel (optSemicolon rest)
      some (node :: nodes)

/-- `ParseStage::handle_request`: an error anywhere refuses the text, and of
several statements the first one is taken. -/
def parse (text : List Char) : Option ParsedSqlNode :=
  match commandsFuel (lex text).length (lex text) with
  | some (node :: _) => some node
  | _ => none

end CsuDbms.SqlParserModel

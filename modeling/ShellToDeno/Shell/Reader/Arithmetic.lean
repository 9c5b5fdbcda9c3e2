import ShellToDeno.Shell.Reader.Lexer

/-!
Arithmetic expressions. Nothing is kept of one but where it ends and whether it can be assigned to.
A compact expression, an argument of `let`, ends at the first blank.
-/
namespace ShellToDeno.Shell.Read

/-- Where an operator must be followed by an expression. -/
def failNoExpression {α : Type} (start : Place) (left : Text) : Read α :=
  fail start (.needsAfter left "an expression")

def skipNewline (g : Grammar) (compact : Bool) : Read Unit := do
  if !compact then discard <| g.got .newline

/-- Passes an operator. -/
def passOperator (g : Grammar) (compact : Bool) : Read Unit := do
  let start ← pos
  let operator ← token
  g.next
  if compact && (← get).spaced then failNoExpression start operator.text
  skipNewline g compact

/-- Whether the current token is one of the operators and belongs to the expression. -/
def atOperator (compact : Bool) (operators : List Token) : Read Bool := do
  let s ← get
  return operators.contains s.token && !(compact && s.spaced)

def failNoLeft (left : Option Term) : Read Unit := do
  if left.isNone then failHere (.afterExpression (← token).text)

def required (start : Place) (operator : Token) : Option Term → Read Term
  | some term => return term
  | none => failNoExpression start operator.text

/-- Operators of one strength, grouped from the left. -/
def binary (g : Grammar) (compact : Bool) (operators : List Token) (operand : Read (Option Term)) :
    Read (Option Term) := do
  let step (left : Option Term) : Read (Option Term ⊕ Option Term) := do
    if !(← atOperator compact operators) then return .inr left
    failNoLeft left
    let start ← pos
    let operator ← token
    passOperator g compact
    let right ← required start operator (← operand)
    return .inl (some ⟨right.stop, false⟩)
  loop step g.limit (← operand)

/-- The operators between the conditional one and the power, weakest first. -/
def binaryLevels : List (List Token) :=
  [[.orOr], [.andAnd], [.or], [.caret], [.and], [.equal, .notEqual],
   [.redirectIn, .redirectOut, .lessEqual, .greaterEqual], [.document, .appendOut],
   [.plus, .minus], [.star, .slash, .percent]]

def binaryChain (g : Grammar) (compact : Bool) : List (List Token) → Read (Option Term)
  | [] => g.arithmetic .power compact
  | operators :: tighter => binary g compact operators (binaryChain g compact tighter)

def assignOperators : List Token :=
  [.plusAssign, .minusAssign, .starAssign, .slashAssign, .percentAssign, .andAssign, .orAssign,
   .caretAssign, .shiftLeftAssign, .shiftRightAssign, .assign]

def assignTerm (g : Grammar) (compact : Bool) : Read (Option Term) := do
  let left ← g.arithmetic .ternary compact
  if !(← atOperator compact assignOperators) then return left
  let start ← pos
  let operator ← token
  if !(left.map Term.isName).getD false then failHere (.afterName operator.text)
  passOperator g compact
  let right ← required start operator (← g.arithmetic .assign compact)
  return some ⟨right.stop, false⟩

def ternaryTerm (g : Grammar) (compact : Bool) : Read (Option Term) := do
  let condition ← binaryChain g compact binaryLevels
  if !(← atOperator compact [.question]) then return condition
  failNoLeft condition
  let question ← pos
  passOperator g compact
  if (← token) == .colon then failNoExpression question Token.question.text
  discard <| required question .question (← g.arithmetic .comma compact)
  if (← token) != .colon then fail question .ternaryColon
  let colon ← pos
  passOperator g compact
  let right ← required colon .colon (← g.arithmetic .ternary compact)
  return some ⟨right.stop, false⟩

def powerTerm (g : Grammar) (compact : Bool) : Read (Option Term) := do
  let left ← g.arithmetic .unary compact
  if !(← atOperator compact [.power]) then return left
  failNoLeft left
  let start ← pos
  passOperator g compact
  let right ← required start .power (← g.arithmetic .power compact)
  return some ⟨right.stop, false⟩

def unaryTerm (g : Grammar) (compact : Bool) : Read (Option Term) := do
  skipNewline g compact
  let operator ← token
  if !([.exclamation, .tilde, .plus, .minus] : List Token).contains operator then
    return ← g.arithmetic .value compact
  let start ← pos
  passOperator g compact
  let operand ← required start operator (← g.arithmetic .unary compact)
  return some ⟨operand.stop, false⟩

def followArithmetic (g : Grammar) (left : Token) (start : Place) : Read Term := do
  required start left (← g.arithmetic .comma false)

/-- Why an expression does not end where it should. -/
def failUnmatched {α : Type} (start : Place) (left right : Token) : Read α := do
  let s ← get
  match s.token with
  | .lit | .litWord => failHere (.notArithmetic s.value)
  | .leftBracket => failHere (.afterName "[")
  | .colon => failHere .ternaryQuestion
  | .rightParen | .eof => fail start (.unmatched s.token left.text right.text)
  | t =>
    if s.mode.isArithmetic then failHere (.notArithmetic t.text)
    else fail start (.unmatched t left.text right.text)

def matchedArithmetic (g : Grammar) (start : Place) (left right : Token) : Read Nat := do
  let place ← pos
  if ← g.got right then return place.offset
  failUnmatched start left right

/-- An index in brackets; gives where the expression in it ends. -/
def index (g : Grammar) : Read Nat := do
  let start ← pos
  let term ← inMode .arithmeticBracket do
    g.next
    let found ← token
    if found == .star || found == .atSign then setLiteral .litWord found.text
    followArithmetic g .leftBracket start
  discard <| matchedArithmetic g start .leftBracket .rightBracket
  return term.stop

def wordTerm (g : Grammar) : Read (Option Term) := do
  return (← g.word).map fun word => ⟨word.stop, Text.isName word.literal⟩

/-- A name or number, maybe with an index. -/
def literalTerm (g : Grammar) : Read (Option Term) := do
  match ← g.literal? with
  | none => return none
  | some lexeme =>
    if (← token) != .leftBracket then return some ⟨lexeme.span.stop, Text.isName lexeme.value⟩
    return some ⟨(← index g) + 1, true⟩

def operandTerm (g : Grammar) (compact : Bool) : Read (Option Term) := do
  match ← token with
  | .leftParen =>
    let start ← pos
    passOperator g compact
    discard <| followArithmetic g .leftParen start
    return some ⟨(← g.matched start "(" .rightParen) + 1, false⟩
  | .leftBracket => failHere (.afterName "[")
  | .colon => failHere .ternaryQuestion
  | .litWord => literalTerm g
  | .backquote =>
    let s ← get
    if s.mode == .arithmeticLet && s.cursor.backquotes > 0 then return none else wordTerm g
  | _ => wordTerm g

def valueTerm (g : Grammar) (compact : Bool) : Read (Option Term) := do
  let operator ← token
  let start ← pos
  if operator == .plusPlus || operator == .minusMinus then
    g.next
    if !(compact && (← get).spaced) then skipNewline g compact
    if (← token) != .litWord then fail start (.needsAfter operator.text "a literal")
    return (← g.arithmetic .value compact).map fun term => ⟨term.stop, false⟩
  let some term ← operandTerm g compact | return none
  if compact && (← get).spaced then return some term
  skipNewline g compact
  let after ← token
  if after != .plusPlus && after != .minusMinus then return some term
  if !term.isName then failHere (.afterName after.text)
  let stop := (← pos).offset + 2
  g.next
  if !(compact && (← get).spaced) then skipNewline g compact
  return some ⟨stop, false⟩

def arithmetic (g : Grammar) : Precedence → Bool → Read (Option Term)
  | .comma, compact => binary g compact [.comma] (g.arithmetic .assign compact)
  | .assign, compact => assignTerm g compact
  | .ternary, compact => ternaryTerm g compact
  | .power, compact => powerTerm g compact
  | .unary, compact => unaryTerm g compact
  | .value, compact => valueTerm g compact

/-- An expression between double parentheses, after the opening; gives where the closing starts. -/
def arithmeticBody (g : Grammar) (mode : Mode) (left : Token) (start : Place) : Read Nat := do
  nested mode do
    g.next
    if ← g.got .hash then fail start (.unsupported "unsigned expressions")
    discard <| followArithmetic g left start
    if (← token) != .rightParen || (← rune) != .char ')' then
      failUnmatched start left .doubleRightParen
    advance
  let place ← pos
  g.next
  return place.offset

end ShellToDeno.Shell.Read

import ShellToDeno.Shell.Token
import ShellToDeno.Contract

/-!
Why a script is not accepted, and where. An error holds its place; the text of the line is found in
the source when the error is shown.
-/
namespace ShellToDeno.Shell

/-- A place in a script. Line and column are those that the reader counted: bytes that it passes
over have no column, and a line that it joins may start late. -/
structure Place where
  offset : Nat
  line : Nat
  column : Nat
  deriving DecidableEq, Repr

/-- The place some bytes further on. -/
def Place.shift (p : Place) (bytes : Nat) : Place :=
  { p with offset := p.offset + bytes, column := p.column + bytes }

inductive Cause where
  | invalidUtf8
  | unclosedQuote (met quote : Token)
  | unmatched (met : Token) (left right : Text)
  | needsAfter (left right : Text)
  | needsEnd (start ending : Text)
  | outsideCase (token : Token)
  | unseparated
  | leadingOperator (token : Token)
  | strayParen
  | badStart (token : Token)
  | misplacedWord (word place : Text)
  | negationAlone
  | negationTwice
  | negationInside
  | notInCommand (token : Token)
  | arithmeticInCommand
  | wordListOnly
  | patternWord
  | patternSeparator
  | functionName
  | nestedArray
  | arrayElement
  | inlineArray
  | variableName
  | unclosedDocument (stop : Text)
  | expansionInStop
  | testEmpty
  | testOperator (text : Text)
  | testOperatorWord
  | testAfterComplex
  | notArithmetic (text : Text)
  | afterName (token : Text)
  | afterExpression (token : Text)
  | ternaryColon
  | ternaryQuestion
  | parameterLiteral
  | parameterName
  | parameterWord (token : Token)
  | parameterOperators
  | parameterOperator (token : Token)
  | specialIndex
  | atOperator
  | atLiteral
  | coprocess
  /-- A construct of another shell. -/
  | foreign (construct : Text)
  | unsupported (feature : Text)
  deriving DecidableEq, Repr

/-- Words are quoted in messages, operators are not. -/
def readable : Text → Text
  | [] => []
  | b :: rest => if 'a' ≤ b && b ≤ 'z' then "\"" ++ b :: rest ++ "\"" else b :: rest

def Cause.message : Cause → Text
  | .invalidUtf8 => "invalid UTF-8 encoding"
  | .unclosedQuote met quote => "reached " ++ met.text ++ " without closing quote " ++ quote.text
  | .unmatched met left right =>
    "reached " ++ met.text ++ " without matching " ++ left ++ " with " ++ right
  | .needsAfter left right => readable left ++ " must be followed by " ++ right
  | .needsEnd start ending => start ++ " statement must end with \"" ++ ending ++ "\""
  | .outsideCase token => token.text ++ " can only be used in a case clause"
  | .unseparated => "statements must be separated by &, ; or a newline"
  | .leadingOperator token => token.text ++ " can only immediately follow a statement"
  | .strayParen => ") can only be used to close a subshell"
  | .badStart token => token.text ++ " is not a valid start for a statement"
  | .misplacedWord word place => "\"" ++ word ++ "\" can only be used " ++ place
  | .negationAlone => "\"!\" cannot form a statement alone"
  | .negationTwice => "cannot negate a command multiple times"
  | .negationInside => "\"!\" can only be used in full statements"
  | .notInCommand token =>
    "a command can only contain words and redirects; encountered " ++ token.text
  | .arithmeticInCommand => "(( can only be used to open an arithmetic cmd"
  | .wordListOnly => "word list can only contain words"
  | .patternWord => "case patterns must consist of words"
  | .patternSeparator => "case patterns must be separated with |"
  | .functionName => "invalid func name"
  | .nestedArray => "arrays cannot be nested"
  | .arrayElement => "array element values must be words"
  | .inlineArray => "inline variables cannot be arrays"
  | .variableName => "invalid var name"
  | .unclosedDocument stop => "unclosed here-document '" ++ stop ++ "'"
  | .expansionInStop => "expansions not allowed in heredoc words"
  | .testEmpty => "test clause requires at least one expression"
  | .testOperator text => "not a valid test operator: " ++ text
  | .testOperatorWord => "test operator words must consist of a single literal"
  | .testAfterComplex => "expected &&, || or ]] after complex expr"
  | .notArithmetic text => "not a valid arithmetic operator: " ++ text
  | .afterName token => token ++ " must follow a name"
  | .afterExpression token => token ++ " must follow an expression"
  | .ternaryColon => "ternary operator missing : after ?"
  | .ternaryQuestion => "ternary operator missing ? before :"
  | .parameterLiteral => "parameter expansion requires a literal"
  | .parameterName => "invalid parameter name"
  | .parameterWord token => token.text ++ " cannot be followed by a word"
  | .parameterOperators => "cannot combine multiple parameter expansion operators"
  | .parameterOperator token => "not a valid parameter expansion operator: " ++ token.text
  | .specialIndex => "cannot index a special parameter name"
  | .atOperator => "invalid @ expansion operator"
  | .atLiteral => "@ expansion operator requires a literal"
  | .coprocess => "coproc clause requires a command"
  | .foreign construct => "\"" ++ construct ++ "\" is a mksh feature"
  | .unsupported feature => feature ++ " is not supported"

structure SyntaxError where
  place : Place
  cause : Cause
  deriving DecidableEq, Repr

/-- An error as it is shown: its place in lines and columns, and the line it stands on. -/
structure Diagnosis where
  line : Int
  column : Int
  message : Text
  context : Text
  deriving DecidableEq, Repr

namespace Diagnosis

/-- A line of a source, counted from one, without carriage returns at its end. -/
def sourceLine (source : Text) (line : Int) : Text :=
  if line < 1 then [] else
  match (Text.splitOn "\n" source)[(line - 1).toNat]? with
  | some text => Text.dropEndWhile (· == '\r') text
  | none => []

def locate (source : Text) (line column : Int) (message : Text) : Diagnosis :=
  ⟨line, column, message, sourceLine source line⟩

/-- The line in full, and a caret under the column when there is a line to show. -/
def render (d : Diagnosis) : Text :=
  let headline := "line " ++ Text.ofInt d.line ++ ": " ++ d.message
  if d.context.isEmpty then headline
  else headline ++ "\n" ++ d.context ++ "\n" ++ Text.spaces (d.column - 1).toNat ++ "^"

end Diagnosis

def SyntaxError.diagnose (source : Text) (e : SyntaxError) : Diagnosis :=
  .locate source e.place.line e.place.column e.cause.message

/-- Why reading ended early: the script is not accepted, or the reader itself broke. -/
inductive Refusal (α : Type) where
  | rejected (error : α)
  | broken (fault : Fault)
  deriving DecidableEq, Repr

end ShellToDeno.Shell

import ShellToDeno.Compile.Call
import ShellToDeno.Number.Double

/-!
Tests. Their words are read by the grammar

    or      := and (("-o" | "||") and)*
    and     := not (("-a" | "&&") not)*
    not     := "!" not | primary
    primary := "(" or ")" | unary operand | operand binary operand | operand

into a condition and its negation.
-/
namespace ShellToDeno

/-- A condition together with its negation. -/
structure Condition where
  holds : Text
  fails : Text
  deriving DecidableEq, Repr

namespace Condition

def ofText (text : Text) : Condition := ⟨text, "!(" ++ text ++ ")"⟩

def negate (c : Condition) : Condition := ⟨c.fails, c.holds⟩

def constant (b : Bool) : Condition :=
  if b then ⟨"true", "false"⟩ else ⟨"false", "true"⟩

/-- Whether a text is empty. -/
def notEmpty (value : Text) : Condition := ⟨value ++ ".length > 0", value ++ ".length == 0"⟩

end Condition

/-- One word of a test. -/
structure TestWord where
  nodes : List Node
  text : Text

namespace TestWord

def ofNodes (nodes : List Node) : TestWord := ⟨nodes, Arguments.textOf nodes⟩

def isBracket (n : Node) : Bool :=
  n.isLeaf && n.isAny [.token "[", .token "]", .token "[[", .token "]]"] && n.kind == .token n.text

/-- Operators that are words of their own even with nothing around them. -/
def isOperator (n : Node) : Bool :=
  n.isLeaf && n.isAny [.token "(", .token ")", .token "!", .token "&&", .token "||"] &&
    n.kind == .token n.text

/-- Cuts one argument at its operators; `run` holds the nodes since the last one, last first. -/
def cutFrom (run : List Node) : List Node → List TestWord
  | [] => if run.isEmpty then [] else [ofNodes run.reverse]
  | n :: rest =>
    if isOperator n then
      (if run.isEmpty then [] else [ofNodes run.reverse]) ++ ofNodes [n] :: cutFrom [] rest
    else cutFrom (n :: run) rest

/-- The words of a test without its brackets. -/
def all (n : Node) : List TestWord :=
  (Arguments.groups (n.children.filter fun child => !isBracket child)).flatMap (cutFrom [])

end TestWord

/-- An operator between two operands. -/
structure Comparison where
  holds : Text
  fails : Text
  numeric : Bool
  deriving DecidableEq, Repr

namespace Compile

open Arguments

def comparisons : List (Text × Comparison) :=
  [("=", ⟨"===", "!==", false⟩), ("==", ⟨"===", "!==", false⟩), ("!=", ⟨"!==", "===", false⟩),
   ("<", ⟨"<", ">=", false⟩), (">", ⟨">", "<=", false⟩), ("-eq", ⟨"==", "!=", true⟩),
   ("-ne", ⟨"!=", "==", true⟩), ("-gt", ⟨">", "<=", true⟩), ("-lt", ⟨"<", ">=", true⟩),
   ("-ge", ⟨">=", "<", true⟩), ("-le", ⟨"<=", ">", true⟩)]

def accessCheck (right value : Text) : Text :=
  "(() => \x7b try \x7b fs.accessSync(" ++ value ++ ", fs.constants." ++ right ++
    "); return true \x7d catch \x7b return false \x7d \x7d)()"

/-- The test of a file that an operator asks for. -/
def fileCheck? (operator value : Text) : Option Text :=
  if operator == "-e" || operator == "-a" then some ("fs.existsSync(" ++ value ++ ")")
  else if operator == "-f" then some (existing "statSync" ".isFile()")
  else if operator == "-d" then some (existing "statSync" ".isDirectory()")
  else if operator == "-L" || operator == "-h" then some (existing "lstatSync" ".isSymbolicLink()")
  else if operator == "-s" then some (existing "statSync" ".size > 0")
  else if operator == "-x" then some (accessCheck "X_OK" value)
  else if operator == "-r" then some (accessCheck "R_OK" value)
  else if operator == "-w" then some (accessCheck "W_OK" value)
  else none
where
  existing (status property : Text) : Text :=
    "(fs.existsSync(" ++ value ++ ") && fs." ++ status ++ "(" ++ value ++ ")" ++ property ++ ")"

def isUnary (operator : Text) : Bool :=
  operator == "-n" || operator == "-z" || (fileCheck? operator []).isSome

/-- The expression of a template that is nothing but one substitution. -/
def soleSubstitution? (value : Text) : Option Text :=
  match (Text.cutStart? "`$\x7b" value).bind (Text.cutEnd? "\x7d`") with
  | some inner =>
    if inner.any fun b => b == Ascii.openBrace || b == Ascii.closeBrace || b == '`' then none
    else some inner
  | none => none

/-- An operand as an expression. -/
def operandValue (c : Compiler) (context : Context) (numeric : Bool) (word : TestWord) :
    Compile (Option Text) := do
  let some id ← convertOne c context word.nodes | return none
  if ← isFallback id then return none
  if numeric then
    if let some v ← c.read id .number then return some v
  let some v ← c.read id .value | return none
  return some ((soleSubstitution? v).getD v)

/-- The outcome of comparing two numbers. -/
def compareNumbers (operator : Text) (l r : Double) : Option Bool :=
  if operator == "==" then some (l.equal r)
  else if operator == "!=" then some (!l.equal r)
  else if operator == ">" then some (r.less l)
  else if operator == "<" then some (l.less r)
  else if operator == ">=" then some (r.less l || l.equal r)
  else if operator == "<=" then some (l.less r || l.equal r)
  else none

/-- Decides a comparison of two number literals. -/
def foldComparison? (left operator right : Text) : Option Condition := do
  let l ← Double.read? left
  let r ← Double.read? right
  return .constant (← compareNumbers operator l r)

def binaryTest (c : Compiler) (context : Context) (left : TestWord) (comparison : Comparison)
    (right : TestWord) : Compile (Option Condition) := do
  let some l ← operandValue c context comparison.numeric left | return none
  let some r ← operandValue c context comparison.numeric right | return none
  let plain : Condition :=
    ⟨l ++ " " ++ comparison.holds ++ " " ++ r, l ++ " " ++ comparison.fails ++ " " ++ r⟩
  if comparison.numeric then return some ((foldComparison? l comparison.holds r).getD plain)
  return some plain

def matchTest (c : Compiler) (context : Context) (left right : TestWord) :
    Compile (Option Condition) := do
  let some l ← operandValue c context false left | return none
  let some id ← convertOne c context right.nodes | return none
  let some pattern ← c.read id .templateInnards | return none
  let text := l ++ ".match(new RegExp(`" ++ pattern ++ "`))"
  return some ⟨text, "!" ++ text⟩

/-- The command that a substitution looks up, if that is all it does. -/
def substitutedLookup? (context : Context) (nodes : List Node) : Option (Call × List Node) := do
  let [n] := nodes | none
  let substitution ← if n.kind == .string then
      match quotedParts n with
      | [only] => some only
      | _ => none
    else some n
  if substitution.kind != .commandSubstitution then none else
  match substitution.significant.filter fun child => child.kind == .command with
  | [command] =>
    let call ← Call.ofNode? context command
    let operand ← call.lookupOperand?
    return (call, operand)
  | _ => none

/-- The condition that a text from a command lookup is not empty. -/
def lookupTest (c : Compiler) (context : Context) (word : TestWord) :
    Compile (Option Condition) := do
  match substitutedLookup? context word.nodes with
  | none => return none
  | some (call, operand) =>
    let some value ← call.value c operand | return none
    use .hasCommand
    let check := "hasCommand(" ++ value ++ ")"
    return some ⟨check, "!" ++ check⟩

def unaryTest (c : Compiler) (context : Context) (operator : Text) (word : TestWord) :
    Compile (Option Condition) := do
  if operator == "-n" || operator == "-z" then
    if let some check ← lookupTest c context word then
      return some (if operator == "-z" then check.negate else check)
  let some v ← operandValue c context false word | return none
  if operator == "-n" then return some (.notEmpty v)
  if operator == "-z" then return some (Condition.notEmpty v).negate
  use .fs
  return (fileCheck? operator v).map .ofText

abbrev TestReader := List TestWord → Compile (Option (Condition × List TestWord))

/-- A test of one operand, or of two with an operator between them. -/
def operandTest (c : Compiler) (context : Context) : TestReader
  | [] => return none
  | [word] => single word []
  | word :: second :: rest => do
    match comparisons.lookup second.text, second.text == "=~", rest with
    | some comparison, _, right :: after =>
      return (← binaryTest c context word comparison right).map (·, after)
    | _, true, right :: after => return (← matchTest c context word right).map (·, after)
    | _, _, _ =>
      if isUnary word.text then
        return (← unaryTest c context word.text second).map (·, rest)
      single word (second :: rest)
where
  single (word : TestWord) (rest : List TestWord) : Compile (Option (Condition × List TestWord)) :=
    return (← operandValue c context false word).map fun v => (.notEmpty v, rest)

/-- A test in parentheses or without any. -/
def primaryTest (c : Compiler) (context : Context) (inner : TestReader) : TestReader
  | [] => return none
  | word :: rest => do
    if word.text == "(" || word.text == "\\(" then
      match ← inner rest with
      | some (found, closing :: after) =>
        if closing.text == ")" || closing.text == "\\)" then
          return some (⟨"(" ++ found.holds ++ ")", found.fails⟩, after)
        return none
      | _ => return none
    operandTest c context (word :: rest)

def notTest (c : Compiler) (context : Context) (inner : TestReader) : TestReader
  | [] => return none
  | word :: rest => do
    if word.text == "!" then
      return (← notTest c context inner rest).map fun (found, after) => (found.negate, after)
    primaryTest c context inner (word :: rest)

/-- Tests joined by one operator, grouped from the left. -/
def joinedFrom (operators : List Text) (joint : Text) (operand : TestReader) :
    Nat → Condition → TestReader
  | 0, left, words => return some (left, words)
  | _, left, [] => return some (left, [])
  | fuel + 1, left, word :: rest => do
    if !operators.contains word.text then return some (left, word :: rest)
    match ← operand rest with
    | some (right, after) =>
      joinedFrom operators joint operand fuel (.ofText (left.holds ++ joint ++ right.holds)) after
    | none => return none

def joinedTest (operators : List Text) (joint : Text) (operand : TestReader) : TestReader :=
  fun words => do
    match ← operand words with
    | some (left, rest) => joinedFrom operators joint operand rest.length left rest
    | none => return none

/-- Any test; each pair of parentheses takes one round. -/
def orTest (c : Compiler) (context : Context) : Nat → TestReader
  | 0 => fun _ => return none
  | fuel + 1 =>
    joinedTest ["-o", "||"] " || " <|
      joinedTest ["-a", "&&"] " && " <|
        notTest c context (orTest c context fuel)

/-- Reads all words of a test. -/
def testCondition (c : Compiler) (context : Context) (words : List TestWord) :
    Compile (Option Condition) := do
  if words.isEmpty then return none
  match ← orTest c context (words.length + 1) words with
  | some (found, []) => return some found
  | _ => return none

/-- A test in brackets or an arithmetic command. -/
def testCommand (c : Compiler) (context : Context) (n : Node) : Compile FragmentId := do
  match (Text.cutStart? "((" n.text).bind (Text.cutEnd? "))") with
  | some body =>
    let text := Utf8.trim (← arithmetic body)
    let grouped := "(" ++ text ++ ")"
    new [(.statement, .text text), (.value, .text grouped), (.condition, .text grouped)]
  | none =>
    let pure := (Form.pureCommand, Recipe.text (Js.templateInnards n.text))
    match ← testCondition c context (TestWord.all n) with
    | some found =>
      new [(.condition, .text found.holds), (.negation, .text found.fails),
        (.value, .text found.holds), pure]
    | none =>
      log .warn "unsupported test expression" [("node_type", n.kind.name), ("text", n.text)]
      let marker := Js.marker n.text
      new [(.condition, .text marker), (.value, .text marker), pure]

end Compile

end ShellToDeno

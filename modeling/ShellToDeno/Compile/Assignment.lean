import ShellToDeno.Compile.Words

/-! Assignments, declarations and their removal. -/
namespace ShellToDeno.Compile

open Arguments

/-- The operator of an assignment and the nodes of its value. -/
inductive AssignmentParts where
  | missing
  | indexed
  | found (operator : Text) (values : List Node)

def assignOperator? (n : Node) : Option Text :=
  if n.kind == .token "=" then some "=" else if n.kind == .token "+=" then some "+=" else none

/-- Finds the operator; nothing but blanks may stand between it and the name. -/
def assignmentParts (n name : Node) : List Node → Compile AssignmentParts
  | [] => return .missing
  | child :: rest =>
    match assignOperator? child with
    | none => assignmentParts n name rest
    | some operator => do
      let between ← sliceOf n.text (name.stop - n.start) (child.start - n.start)
      if !(Utf8.trim between).isEmpty then return .indexed
      return .found operator (rest.filter fun v => !v.isAny [.whitespace, .comment])

def assignedValue (c : Compiler) (context : Context) : List Node → Compile (Option Text)
  | [] => return some "\"\""
  | values => do
    match values with
    | [only] => if only.kind == .array then return ← c.read (← c.compile only context) .array
    | _ => pure ()
    c.read (← combine c (← values.mapM (withLiteralBraces c context))) .value

def assignment (c : Compiler) (context : Context) (n : Node) : Compile FragmentId := do
  let some name := n.child? [.variableName] | giveUp n "assignment without a variable name"
  match ← assignmentParts n name n.children with
  | .missing => giveUp n "assignment without ="
  | .indexed => giveUp n "indexed assignment"
  | .found operator values =>
    match ← assignedValue c context values with
    | none => giveUp n "assignment value could not be derived"
    | some value =>
      let target ← if context == .localAssignment then localVariable name.text else env name.text
      expression (target ++ " " ++ operator ++ " " ++ value)

/-- The statements of some assignments, none if one of them could not be compiled. -/
def assignmentTexts (c : Compiler) (context : Context) : List Node → Compile (Option (List Text))
  | [] => return some []
  | n :: rest => do
    let id ← assignment c context n
    if ← isFallback id then return none
    let text := (← c.read id .statement).getD []
    return (← assignmentTexts c context rest).map (text :: ·)

/-- Several assignments on one line. -/
def assignments (c : Compiler) (context : Context) (n : Node) : Compile FragmentId := do
  match ← assignmentTexts c context (n.childrenOf [.variableAssignment]) with
  | some texts => expression (Text.join "; " texts)
  | none => fallback n.text

/-- What came of the words after a declaring keyword. -/
inductive Declarations where
  | failed
  | unvalued
  | texts (statements : List Text)

def Declarations.cons (text : Text) : Declarations → Declarations
  | .texts statements => .texts (text :: statements)
  | other => other

def declarations (c : Compiler) (context : Context) (isLocal : Bool) :
    List Node → Compile Declarations
  | [] => return .texts []
  | n :: rest => do
    if n.kind == .variableAssignment then
      let id ← assignment c (if isLocal then .localAssignment else context) n
      if ← isFallback id then return .failed
      let text := (← c.read id .statement).getD []
      return (← declarations c context isLocal rest).cons text
    else if n.kind == .variableName && isLocal then
      let text := (← localVariable n.text) ++ " = \"\""
      return (← declarations c context isLocal rest).cons text
    else if Text.begins "-" n.text || Text.begins "+" n.text then
      declarations c context isLocal rest
    else return .unvalued

/-- A declaration such as `local` or `export`. -/
def declaration (c : Compiler) (context : Context) (n : Node) : Compile FragmentId := do
  match n.significant with
  | [] => giveUp n "empty declaration"
  | keyword :: rest =>
    match ← declarations c context (keyword.text == "local") rest with
    | .failed => fallback n.text
    | .unvalued => giveUp n (keyword.text ++ " without a value")
    | .texts [] => giveUp n (keyword.text ++ " without a variable")
    | .texts statements => expression (Text.join "; " statements)

def unsetReview : Text :=
  "/* FIXME: unset inside a function also deletes a global of the same name */ "

/-- What came of the operands of an `unset`. -/
inductive Removals where
  | unsupported (flag : Text)
  | computed
  | texts (statements : List Text)

def removals : List Text → Compile Removals
  | [] => return .texts []
  | operand :: rest => do
    if operand == "-v" then removals rest
    else if Text.begins "-" operand then return .unsupported operand
    else if !Text.isName operand then return .computed
    else
      let access ← env operand
      let removal := "delete " ++ access
      let text := if (← get).depth > 0 then unsetReview ++ removal else removal
      match ← removals rest with
      | .texts statements => return .texts (text :: statements)
      | other => return other

/-- Removes variables of the environment; those of functions are not known here. -/
def unset (n : Node) : Compile FragmentId := do
  let isKeyword (child : Node) : Bool := child.isAny [.token "unset", .token "unsetenv"]
  let operands := match n.children.dropWhile fun child => !isKeyword child with
    | [] => n.children
    | _ :: rest => rest
  match ← removals ((groups operands).map textOf) with
  | .unsupported flag => giveUp n ("unset " ++ flag ++ " is not supported")
  | .computed => giveUp n "dynamic unset target"
  | .texts [] => giveUp n "unset without a name"
  | .texts statements => statement (Text.join "; " statements)

end ShellToDeno.Compile

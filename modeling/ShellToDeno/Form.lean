import ShellToDeno.Text

/-!
The forms of a compiled fragment. A fragment is one piece of the script in many spellings, so that
whoever uses it can ask for the one it needs: an argument of a command string, a whole call, a
string, a condition or a statement.
-/
namespace ShellToDeno

inductive Form where
  /-- A bare argument inside a command string. -/
  | argument
  /-- Text between single quotes inside a command string. -/
  | quotedInnards
  | singleQuoted
  /-- The text of a command without the call around it. -/
  | pureCommand
  | redirectedCommand
  /-- The text of a command that can still be joined with others by `&&` and `||`. -/
  | chainedCommand
  | plainCall
  | redirectedCall
  | textCall
  /-- A call that captures output as a command substitution does. -/
  | captureCall
  | success
  | failure
  | templateInnards
  | template
  | stringValue
  | array
  | number
  | value
  | condition
  | negation
  | statement
  /-- A whole argument list inside a command string. -/
  | argumentList
  deriving DecidableEq, Repr

namespace Form

/-- All forms, in the order in which they are shown, with their names. -/
def names : List (Form × String) :=
  [(argument, "asDaxArgUnquoted"), (quotedInnards, "asDaxArgSingleQuoteInnards"),
   (singleQuoted, "asDaxSingleQuoted"), (pureCommand, "asDaxCommandInnardsPure"),
   (redirectedCommand, "asDaxCommandInnardsRedirected"),
   (chainedCommand, "asDaxCommandInnardsChained"), (plainCall, "asDaxCallNoPostfix"),
   (redirectedCall, "asDaxCallRedirected"), (textCall, "asDaxCallToString"),
   (captureCall, "asDaxCallToSub"), (success, "asDaxCallSuccess"), (failure, "asDaxCallFail"),
   (templateInnards, "asJsBacktickStringInnards"), (template, "asJsBacktickString"),
   (stringValue, "asJsStringValue"), (array, "asJsArray"), (number, "asJsNumber"),
   (value, "asJsValue"), (condition, "asJsConditional"), (negation, "asNegatedJsConditional"),
   (statement, "asJsStatement"), (argumentList, "asDaxArgSequence")]

def all : List Form := names.map Prod.fst

def name (form : Form) : Text := ((names.lookup form).map Text.ofString).getD []

def ofName? (name : Text) : Option Form := all.find? fun form => form.name == name

end Form

end ShellToDeno

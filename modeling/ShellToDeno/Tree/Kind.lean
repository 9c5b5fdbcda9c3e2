import ShellToDeno.Text

/-!
Kinds of nodes. Pieces of the grammar have kinds of their own; every other token is its own kind,
known by its text.
-/
namespace ShellToDeno

inductive Kind where
  | program | whitespace | text | comment
  | word | number | rawString | ansiString | stringContent | string | concatenation
      | braceExpression
  | simpleExpansion | expansion | variableName | specialVariableName
  | commandSubstitution | arithmeticExpansion | processSubstitution
  | command | commandName | variableAssignment | variableAssignments | array
  | declarationCommand | unsetCommand | testCommand | negatedCommand
  | redirectedStatement | fileRedirect | heredocRedirect | herestringRedirect | fileDescriptor
  | heredocBody
  | pipeline | list | subshell | compoundStatement | functionDefinition
  | ifStatement | elifClause | elseClause | forStatement | countedForStatement | whileStatement
  | doGroup | caseStatement
  | unsupportedStatement | backgroundStatement
  | token (spelling : Text)
  deriving DecidableEq, Repr

namespace Kind

/-- The names of the kinds that are not tokens. -/
def names : List (Text × Kind) :=
  List.map (fun (name, kind) => (Text.ofString name, kind))
    [("program", program), ("whitespace", whitespace), ("text", text), ("comment", comment),
     ("word", word), ("number", number), ("raw_string", rawString), ("ansi_c_string", ansiString),
     ("string_content", stringContent), ("string", string), ("concatenation", concatenation),
     ("brace_expression", braceExpression), ("simple_expansion", simpleExpansion),
     ("expansion", expansion), ("variable_name", variableName),
     ("special_variable_name", specialVariableName), ("command_substitution", commandSubstitution),
     ("arithmetic_expansion", arithmeticExpansion), ("process_substitution", processSubstitution),
     ("command", command), ("command_name", commandName),
     ("variable_assignment", variableAssignment), ("variable_assignments", variableAssignments),
     ("array", array), ("declaration_command", declarationCommand), ("unset_command", unsetCommand),
     ("test_command", testCommand), ("negated_command", negatedCommand),
     ("redirected_statement", redirectedStatement), ("file_redirect", fileRedirect),
     ("heredoc_redirect", heredocRedirect), ("herestring_redirect", herestringRedirect),
     ("file_descriptor", fileDescriptor), ("heredoc_body", heredocBody), ("pipeline", pipeline),
     ("list", list), ("subshell", subshell), ("compound_statement", compoundStatement),
     ("function_definition", functionDefinition), ("if_statement", ifStatement),
     ("elif_clause", elifClause), ("else_clause", elseClause), ("for_statement", forStatement),
     ("c_style_for_statement", countedForStatement), ("while_statement", whileStatement),
     ("do_group", doGroup), ("case_statement", caseStatement),
     ("unsupported_statement", unsupportedStatement), ("background_statement", backgroundStatement)]

def ofName (name : Text) : Kind := (names.lookup name).getD (.token name)

def name : Kind → Text
  | .token spelling => spelling
  | kind => ((names.find? fun entry => entry.2 == kind).map Prod.fst).getD []

end Kind

end ShellToDeno

import ShellToDeno.Text

/-! The tokens of a shell script. A literal's text is kept beside its token by the reader. -/
namespace ShellToDeno.Shell

inductive Token where
  | eof | newline
  /-- Part of a word that goes on after it. -/
  | lit
  /-- A whole unquoted word. -/
  | litWord
  /-- A descriptor directly before a redirect operator. -/
  | litRedirect
  | singleQuote | doubleQuote | backquote
  | and | andAnd | orOr | or | orAnd
  | dollar | dollarSingleQuote | dollarDoubleQuote | dollarBrace | dollarBracket | dollarParen
  | dollarDoubleParen
  | leftBracket | leftParen | doubleLeftParen
  | rightBrace | rightBracket | rightParen | doubleRightParen
  | semicolon | doubleSemicolon | semicolonAnd | doubleSemicolonAnd
  | exclamation | tilde | plusPlus | minusMinus | star | power | equal | notEqual | lessEqual
  | greaterEqual
  | plusAssign | minusAssign | starAssign | slashAssign | percentAssign | andAssign | orAssign
  | caretAssign | shiftLeftAssign | shiftRightAssign
  | redirectOut | appendOut | redirectIn | redirectInOut | duplicateIn | duplicateOut | clobberOut
  | document | tabbedDocument | hereString | redirectAll | appendAll
  | processIn | processOut
  | plus | colonPlus | minus | colonMinus | question | colonQuestion | assign | colonAssign
  | percent | doublePercent | hash | doubleHash | caret | doubleCaret | comma | doubleComma
  | atSign | slash | doubleSlash | colon
  | globQuestion | globStar | globPlus | globAt | globExclamation
  deriving DecidableEq, Repr

/-- A token as an error message shows it. -/
def Token.spelling : Token → String
  | .eof => "EOF" | .newline => "Newl" | .lit => "Lit" | .litWord => "LitWord"
  | .litRedirect => "LitRedir"
  | .singleQuote => "'" | .doubleQuote => "\"" | .backquote => "`"
  | .and => "&" | .andAnd => "&&" | .orOr => "||" | .or => "|" | .orAnd => "|&"
  | .dollar => "$" | .dollarSingleQuote => "$'" | .dollarDoubleQuote => "$\""
  | .dollarBrace => "$\x7b" | .dollarBracket => "$[" | .dollarParen => "$("
  | .dollarDoubleParen => "$(("
  | .leftBracket => "[" | .leftParen => "(" | .doubleLeftParen => "(("
  | .rightBrace => "\x7d" | .rightBracket => "]" | .rightParen => ")" | .doubleRightParen => "))"
  | .semicolon => ";" | .doubleSemicolon => ";;" | .semicolonAnd => ";&"
  | .doubleSemicolonAnd => ";;&"
  | .exclamation => "!" | .tilde => "~" | .plusPlus => "++" | .minusMinus => "--" | .star => "*"
  | .power => "**" | .equal => "==" | .notEqual => "!=" | .lessEqual => "<=" | .greaterEqual => ">="
  | .plusAssign => "+=" | .minusAssign => "-=" | .starAssign => "*=" | .slashAssign => "/="
  | .percentAssign => "%=" | .andAssign => "&=" | .orAssign => "|=" | .caretAssign => "^="
  | .shiftLeftAssign => "<<=" | .shiftRightAssign => ">>="
  | .redirectOut => ">" | .appendOut => ">>" | .redirectIn => "<" | .redirectInOut => "<>"
  | .duplicateIn => "<&" | .duplicateOut => ">&" | .clobberOut => ">|"
  | .document => "<<" | .tabbedDocument => "<<-" | .hereString => "<<<"
  | .redirectAll => "&>" | .appendAll => "&>>"
  | .processIn => "<(" | .processOut => ">("
  | .plus => "+" | .colonPlus => ":+" | .minus => "-" | .colonMinus => ":-" | .question => "?"
  | .colonQuestion => ":?" | .assign => "=" | .colonAssign => ":="
  | .percent => "%" | .doublePercent => "%%" | .hash => "#" | .doubleHash => "##" | .caret => "^"
  | .doubleCaret => "^^" | .comma => "," | .doubleComma => ",,"
  | .atSign => "@" | .slash => "/" | .doubleSlash => "//" | .colon => ":"
  | .globQuestion => "?(" | .globStar => "*(" | .globPlus => "+(" | .globAt => "@("
  | .globExclamation => "!("

def Token.text (token : Token) : Text := token.spelling

namespace Token

/-- Tokens that a redirect starts with. -/
def isRedirect : Token → Bool
  | .litRedirect | .redirectOut | .appendOut | .redirectIn | .duplicateIn | .duplicateOut
  | .clobberOut | .redirectInOut | .document | .tabbedDocument | .hereString | .redirectAll
  | .appendAll => true
  | _ => false

/-- Tokens between two commands. -/
def isSeparator : Token → Bool
  | .eof | .newline | .semicolon | .and | .or | .andAnd | .orOr | .orAnd | .doubleSemicolon
  | .semicolonAnd | .doubleSemicolonAnd => true
  | _ => false

/-- Tokens, other than literals, that a word can start with. -/
def startsPart : Token → Bool
  | .dollarBrace | .dollarDoubleParen | .dollarParen | .dollar | .processIn | .processOut
  | .singleQuote | .dollarSingleQuote | .doubleQuote | .dollarDoubleQuote | .dollarBracket
  | .globQuestion | .globStar | .globPlus | .globAt | .globExclamation => true
  | _ => false

/-- Tokens that end an item of a `case`. -/
def endsItem : Token → Bool
  | .doubleSemicolon | .semicolonAnd | .doubleSemicolonAnd => true
  | _ => false

end Token

end ShellToDeno.Shell

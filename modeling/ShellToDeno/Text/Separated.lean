import ShellToDeno.Text

/-!
Records of fields with commas between them. A field in double quotes may hold commas, line ends
and, written twice, double quotes.
-/
namespace ShellToDeno.Separated

inductive Cause where
  | quoteInField | unbalancedQuote
  deriving DecidableEq, Repr

inductive Problem where
  /-- There is no record at all. -/
  | nothing
  /-- A quote is out of place, on some line of a record that starts on a line. -/
  | quote (start line column : Nat) (cause : Cause)
  deriving DecidableEq, Repr

def Cause.message : Cause → Text
  | .quoteInField => "bare \" in non-quoted field"
  | .unbalancedQuote => "extraneous or missing \" in quoted-field"

def Problem.message : Problem → Text
  | .nothing => "EOF"
  | .quote start line column cause =>
    let place := "parse error on line " ++ Text.ofNat line ++ ", column " ++ Text.ofNat column ++
      ": " ++ cause.message
    if start == line then place
    else ("record on line " : Text) ++ Text.ofNat start ++ "; " ++ place

/-- Where the reader is in a field. The bytes read so far are in reverse. -/
inductive Mode where
  | plain (field : Text)
  | quoted (field : Text)
  /-- After a quote that may end the field. -/
  | closing (field : Text)

/-- Reads the rest of a record; `done` has the fields so far in reverse. -/
def fields (start line column : Nat) (done : List Text) : Mode → Text → Except Problem (List Text)
  | .plain field, [] => .ok (field.reverse :: done).reverse
  | .closing field, [] => .ok (field.reverse :: done).reverse
  | .quoted _, [] => .error (.quote start line column .unbalancedQuote)
  | .plain field, b :: rest =>
    if b == ',' then fields start line (column + 1) (field.reverse :: done) (.plain []) rest
    else if b == '\n' then .ok (field.reverse :: done).reverse
    else if b == '"' then
      if field.isEmpty then fields start line (column + 1) done (.quoted []) rest
      else .error (.quote start line column .quoteInField)
    else fields start line (column + 1) done (.plain (b :: field)) rest
  | .quoted field, b :: rest =>
    if b == '"' then fields start line (column + 1) done (.closing field) rest
    else if b == '\n' && !rest.isEmpty then fields start (line + 1) 1 done
      (.quoted (b :: field)) rest
    else fields start line (column + 1) done (.quoted (b :: field)) rest
  | .closing field, b :: rest =>
    if b == '"' then fields start line (column + 1) done (.quoted (b :: field)) rest
    else if b == ',' then fields start line (column + 1) (field.reverse :: done) (.plain []) rest
    else if b == '\n' then .ok (field.reverse :: done).reverse
    else .error (.quote start line (column - 1) .unbalancedQuote)

/-- The first record of a text; empty lines before it are passed over. -/
def read (t : Text) : Except Problem (List Text) :=
  let text := Text.cutEnd "\r" (Text.replaceAll "\r\n" "\n" t)
  let record := text.dropWhile (· == Ascii.newline)
  if record.isEmpty then .error .nothing
  else
    let line := text.length - record.length + 1
    fields line line 1 [] (.plain []) record

end ShellToDeno.Separated

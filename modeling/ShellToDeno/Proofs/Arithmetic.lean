import ShellToDeno.Compile.Arithmetic
import ShellToDeno.Shell.Quoting
import ShellToDeno.Proofs.Compile.Steps
import ShellToDeno.Proofs.Quoting.Words

/-!
# References in arithmetic

What stands between `((` and `))` is a sequence of tokens (`Body`). A reference to a variable is to
become an access to the environment, and every other token is to stay as it is (`Token.intended`).

The rewriting works on bytes, and a name may begin behind any byte. So a hexadecimal constant is
taken apart: `0` stays, and the rest of it is taken for a name. This is the only token that does not
come out as intended (`Body.arithmetic_rewrites_references`).
-/
namespace ShellToDeno.Arithmetic

open Text Compile

/-- What may stand after a dollar sign: a name, a number or a special sign. -/
def isParameter (t : Text) : Bool :=
  isName t || isDigits t || (t.length == 1 && t.all (isOneOf "#?@*!$-"))

inductive Token where
  | name (variableName : Text)
  | dollar (parameter : Text)
  | braced (parameter : Text)
  /-- A decimal or an octal constant. -/
  | number (digits : Text)
  /-- A constant like `0x1F`, with the letter behind the zero. -/
  | hexadecimal (mark : UInt8) (digits : Text)
  /-- Operators, parentheses and blanks. -/
  | signs (run : Text)

namespace Token

def text : Token → Text
  | name t | number t | signs t => t
  | dollar t => Ascii.dollar :: t
  | braced t => Ascii.dollar :: Ascii.openBrace :: (t ++ [Ascii.closeBrace])
  | hexadecimal mark digits => '0' :: mark :: digits

def isFormed : Token → Bool
  | name t => isName t
  | dollar t | braced t => isParameter t
  | number digits => isDigits digits
  | hexadecimal mark digits =>
    isOneOf "xX" mark && !digits.isEmpty && digits.all (Shell.isBaseDigit 16)
  | signs run => run.all (isOneOf "+-*/%<>=!&|^~?:,;() \t\n")

/-- Whether a byte behind a token would belong to it. -/
def goesOn : Token → UInt8 → Bool
  | name _, b | number _, b | hexadecimal _ _, b => isWordByte b
  | dollar t, b => if isDigits t then isDigit b else isName t && isWordByte b
  | braced _, _ | signs _, _ => false

def isHexadecimal : Token → Bool
  | hexadecimal _ _ => true
  | _ => false

/-- The access to a variable. -/
def access (variableName : Text) : Text := "env" ++ Js.propertyAccess variableName

/-- What a token should become. -/
def intended : Token → Text
  | name t | dollar t | braced t => access t
  | token => token.text

/-- What a token becomes. -/
def written : Token → Text
  | hexadecimal mark digits => '0' :: access (mark :: digits)
  | token => token.intended

/-- The variables that are accessed for a token. -/
def accessed : Token → List Text
  | name t | dollar t | braced t => [t]
  | hexadecimal mark digits => [mark :: digits]
  | number _ | signs _ => []

end Token

/-- No token goes on with the byte that follows it. -/
def Delimited : List Token → Prop
  | [] => True
  | token :: rest =>
    (∀ b ∈ (rest.flatMap Token.text).head?, token.goesOn b = false) ∧ Delimited rest

/-- What stands between `((` and `))`. -/
structure Body where
  tokens : List Token
  formed : ∀ token ∈ tokens, token.isFormed
  delimited : Delimited tokens

namespace Body

def text (body : Body) : Text := body.tokens.flatMap Token.text

def intended (body : Body) : Text := body.tokens.flatMap Token.intended

def written (body : Body) : Text := body.tokens.flatMap Token.written

end Body

theorem takeWhile_append {p : UInt8 → Bool} {t rest : Text} (all : ∀ b ∈ t, p b)
    (ended : ∀ b ∈ rest.head?, p b = false) : (t ++ rest).takeWhile p = t := by
  rw [List.takeWhile_append_of_pos all]
  cases rest with
  | nil => simp
  | cons b rest => simp [ended b rfl]

theorem digit_classes : ∀ b : UInt8, isDigit b → isWordByte b ∧
    (isLetter b || b == '_') = false ∧ (b == '$') = false := by decide +kernel

theorem letter_classes : ∀ b : UInt8, (isLetter b || b == '_') →
    isDigit b = false ∧ (b == '$') = false := by decide +kernel

theorem special_classes : ∀ b : UInt8, isOneOf "#?@*!$-" b →
    isDigit b = false ∧ (isLetter b || b == '_') = false := by decide +kernel

/-- A parameter ends where its text ends. -/
theorem parameterLength_append {t rest : Text} (parameter : isParameter t)
    (ended : ∀ b ∈ rest.head?, (Token.dollar t).goesOn b = false) :
    parameterLength (t ++ rest) = t.length := by
  simp only [isParameter, Bool.or_eq_true] at parameter
  rcases parameter with (named | digits) | special
  · cases t with
    | nil => cases named
    | cons b t =>
      obtain ⟨first, others⟩ := Bool.and_eq_true_iff.1 named
      have ended : ∀ b ∈ rest.head?, isWordByte b = false := by
        simpa [Token.goesOn, isDigits, (letter_classes b first).1, named] using ended
      have all := takeWhile_append (List.all_eq_true.1 others) ended
      rw [List.cons_append, parameterLength, if_pos first, all, List.length_cons, Nat.add_comm]
  · cases t with
    | nil => cases digits
    | cons b t =>
      obtain ⟨first, others⟩ : isDigit b ∧ t.all isDigit := by simpa [isDigits] using digits
      have letter := (digit_classes b first).2.1
      have ended : ∀ b ∈ rest.head?, isDigit b = false := by
        simpa [Token.goesOn, digits] using ended
      have all := takeWhile_append (List.all_eq_true.1 others) ended
      rw [List.cons_append, parameterLength, if_neg (by simp [letter]), if_pos first, all,
        List.length_cons, Nat.add_comm]
  · obtain ⟨alone, sign⟩ := Bool.and_eq_true_iff.1 special
    obtain ⟨b, rfl⟩ := List.length_eq_one_iff.1 (eq_of_beq alone)
    have sign : isOneOf "#?@*!$-" b := by simpa using sign
    obtain ⟨digit, letter⟩ := special_classes b sign
    simp [parameterLength, digit, letter, sign]

theorem reference?_name {t rest : Text} (named : isName t)
    (ended : ∀ b ∈ rest.head?, isWordByte b = false) :
    reference? (t ++ rest) = some (t, t.length) := by
  have length : parameterLength (t ++ rest) = t.length := by
    refine parameterLength_append (by simp [isParameter, named]) fun b next => ?_
    have digit : isDigit b = false := by
      by_contra digit
      have word := (digit_classes b (by simpa using digit)).1
      rw [ended b next] at word
      cases word
    simp [Token.goesOn, digit, ended b next]
  cases t with
  | nil => cases named
  | cons b t =>
    obtain ⟨first, _⟩ := Bool.and_eq_true_iff.1 named
    rw [List.cons_append] at length ⊢
    unfold reference?
    dsimp only
    rw [(letter_classes b first).2, if_neg (by decide), if_pos first, length]
    simp

theorem exists_parameter_head {t : Text} (parameter : isParameter t) :
    ∃ b others, t = b :: others ∧ b ≠ Ascii.openBrace := by
  cases t with
  | nil => cases parameter
  | cons b others =>
    refine ⟨b, others, rfl, ?_⟩
    rintro rfl
    have none : (isLetter Ascii.openBrace || Ascii.openBrace == '_') = false ∧
        isDigit Ascii.openBrace = false ∧ isOneOf "#?@*!$-" Ascii.openBrace = false := by decide
    simp [isParameter, isName, isDigits, none] at parameter

theorem reference?_dollar {t rest : Text} (parameter : isParameter t)
    (ended : ∀ b ∈ rest.head?, (Token.dollar t).goesOn b = false)
    (unclosed : rest.head? ≠ some Ascii.closeBrace) :
    reference? (Ascii.dollar :: (t ++ rest)) = some (t, t.length + 1) := by
  have length := parameterLength_append parameter ended
  obtain ⟨b, others, rfl, bare⟩ := exists_parameter_head parameter
  unfold reference?
  dsimp only
  rw [if_pos (by decide)]
  split
  · next first => exact absurd (List.cons.inj first).1 bare
  · rw [length]
    simp [unclosed]
    omega

theorem reference?_braced {t : Text} (parameter : isParameter t) (rest : Text) :
    reference? (Ascii.dollar :: Ascii.openBrace :: (t ++ Ascii.closeBrace :: rest)) =
      some (t, t.length + 3) := by
  have length : parameterLength (t ++ Ascii.closeBrace :: rest) = t.length := by
    refine parameterLength_append parameter ?_
    rintro _ ⟨⟩
    simp only [Token.goesOn]
    split
    · decide
    · simp [show isWordByte Ascii.closeBrace = false by decide]
  obtain ⟨b, others, rfl, _⟩ := exists_parameter_head parameter
  unfold reference?
  dsimp only
  rw [if_pos (by decide)]
  split
  · next first =>
    obtain rfl := (List.cons.inj first).2
    have positive : parameterLength (b :: others ++ Ascii.closeBrace :: rest) > 0 := by
      rw [length]
      exact Nat.succ_pos _
    simp only [if_pos positive]
    rw [length]
    simp
    omega
  · next other => exact absurd rfl (other _)

/-! One token at a time. -/

variable {s : CompileState}

theorem arithmeticFrom_skip (front rest : Text) :
    arithmeticFrom front.length (front ++ rest) = arithmeticFrom 0 rest := by
  induction front with
  | nil => rfl
  | cons b front ih => exact ih

theorem arithmeticFrom_reference {front rest parameter : Text} (nonempty : front ≠ [])
    (found : reference? (front ++ rest) = some (parameter, front.length)) :
    arithmeticFrom 0 (front ++ rest) =
      (do return (← env parameter) ++ (← arithmeticFrom 0 rest)) := by
  cases front with
  | nil => exact absurd rfl nonempty
  | cons b front =>
    rw [List.cons_append] at found ⊢
    rw [arithmeticFrom, found]
    dsimp only
    rw [List.length_cons, Nat.add_sub_cancel, arithmeticFrom_skip]

/-- Bytes that begin no reference stay as they are. -/
theorem arithmeticFrom_plain {front : Text} (rest : Text)
    (plain : ∀ b ∈ front, (isLetter b || b == '_') = false ∧ (b == '$') = false) :
    arithmeticFrom 0 (front ++ rest) = (do return front ++ (← arithmeticFrom 0 rest)) := by
  induction front with
  | nil => simp
  | cons b front ih =>
    obtain ⟨⟨letter, dollar⟩, others⟩ := List.forall_mem_cons.1 plain
    have none : reference? (b :: (front ++ rest)) = none := by
      unfold reference?
      dsimp only
      rw [dollar, letter]
      rfl
    rw [List.cons_append, arithmeticFrom, none]
    dsimp only
    rw [ih others]
    simp

/-- The state after an access to each of some variables. -/
def afterAccess (s : CompileState) (variableNames : List Text) : CompileState :=
  variableNames.foldl (fun s variableName => (run s (env variableName)).2) s

theorem run_env (s : CompileState) (variableName : Text) :
    run s (env variableName) = (.ok (Token.access variableName), afterAccess s [variableName]) := by
  have ok : (run s (env variableName)).1 = .ok (Token.access variableName) := by
    unfold env
    cases variableName == "?" <;> rfl
  exact Prod.ext ok rfl

theorem hexadecimal_classes : ∀ b : UInt8, (isOneOf "xX" b → isLetter b) ∧
    (Shell.isBaseDigit 16 b → isWordByte b) := by decide +kernel

theorem isName_hexadecimal {mark : UInt8} {digits : Text}
    (formed : (Token.hexadecimal mark digits).isFormed) : isName (mark :: digits) := by
  simp only [Token.isFormed, Bool.and_eq_true, List.all_eq_true] at formed
  have letter := (hexadecimal_classes mark).1 formed.1.1
  simp only [isName, letter, Bool.true_or, Bool.true_and, List.all_eq_true]
  exact fun b member => (hexadecimal_classes b).2 (formed.2 b member)

theorem sign_classes : ∀ b : UInt8, isOneOf "+-*/%<>=!&|^~?:,;() \t\n" b →
    (isLetter b || b == '_') = false ∧ (b == '$') = false := by decide +kernel

/-- One token, whatever text follows that it does not go on with. -/
theorem run_token {token : Token} (formed : token.isFormed) {rest : Text}
    (ended : ∀ b ∈ rest.head?, token.goesOn b = false)
    (unclosed : rest.head? ≠ some Ascii.closeBrace) (s : CompileState) :
    run s (arithmeticFrom 0 (token.text ++ rest)) =
      run (afterAccess s token.accessed)
      (do return token.written ++ (← arithmeticFrom 0 rest)) := by
  have reference {front parameter : Text} (nonempty : front ≠ [])
      (found : reference? (front ++ rest) = some (parameter, front.length)) :
      run s (arithmeticFrom 0 (front ++ rest)) = run (afterAccess s [parameter])
        (do return Token.access parameter ++ (← arithmeticFrom 0 rest)) := by
    rw [arithmeticFrom_reference nonempty found, run_bind_ok (run_env s parameter)]
  cases token with
  | name t =>
    refine reference ?_ (reference?_name formed ended)
    rintro rfl
    cases formed
  | dollar t => exact reference (List.cons_ne_nil _ _) (reference?_dollar formed ended unclosed)
  | braced t =>
    refine reference (List.cons_ne_nil _ _) ?_
    simpa [Token.text] using reference?_braced formed rest
  | number digits =>
    have digit : ∀ b ∈ digits, isDigit b := by
      simp only [Token.isFormed, isDigits, Bool.and_eq_true, List.all_eq_true] at formed
      exact formed.2
    rw [Token.text, arithmeticFrom_plain rest fun b member => (digit_classes b (digit b member)).2]
    rfl
  | signs run =>
    rw [Token.text, arithmeticFrom_plain rest fun b member =>
      sign_classes b (List.all_eq_true.1 formed b member)]
    rfl
  | hexadecimal mark digits =>
    have zero : ∀ b ∈ (['0'] : Text), (isLetter b || b == '_') = false ∧ (b == '$') = false :=
      List.forall_mem_singleton.2 (digit_classes _ rfl).2
    have named := reference?_name (isName_hexadecimal formed) ended
    have split : (Token.hexadecimal mark digits).text ++ rest =
        (['0'] : Text) ++ (mark :: digits ++ rest) := rfl
    rw [split, arithmeticFrom_plain _ zero, arithmeticFrom_reference (List.cons_ne_nil _ _) named,
      bind_assoc, run_bind_ok (run_env s _)]
    simp [Token.written, Token.accessed]

/-! All tokens of a body. -/

variable {tokens : List Token}

/-- No token begins with a closing brace. -/
theorem head?_text_ne_closeBrace (formed : ∀ token ∈ tokens, token.isFormed) :
    (tokens.flatMap Token.text).head? ≠ some Ascii.closeBrace := by
  induction tokens with
  | nil => simp
  | cons token rest ih =>
    obtain ⟨here, others⟩ := List.forall_mem_cons.1 formed
    rw [List.flatMap_cons]
    cases text : token.text with
    | nil => exact ih others
    | cons b t =>
      rintro ⟨⟩
      have none : isLetter Ascii.closeBrace = false ∧ Ascii.closeBrace ≠ '_' ∧
          isDigit Ascii.closeBrace = false ∧
          isOneOf "+-*/%<>=!&|^~?:,;() \t\n" Ascii.closeBrace = false := by decide
      cases token with
      | name | number | signs =>
        rw [Token.text] at text
        simp [Token.isFormed, text, isName, isDigits, none] at here
      | dollar | braced | hexadecimal => cases text

theorem run_arithmeticFrom (formed : ∀ token ∈ tokens, token.isFormed)
    (delimited : Delimited tokens)
    (s : CompileState) : run s (arithmeticFrom 0 (tokens.flatMap Token.text)) =
      (.ok (tokens.flatMap Token.written), afterAccess s (tokens.flatMap Token.accessed)) := by
  induction tokens generalizing s with
  | nil => rfl
  | cons token rest ih =>
    obtain ⟨here, others⟩ := List.forall_mem_cons.1 formed
    obtain ⟨ended, delimited⟩ := delimited
    rw [List.flatMap_cons, run_token here ended (head?_text_ne_closeBrace others),
      run_bind_ok (ih others delimited _)]
    simp only [List.flatMap_cons, afterAccess, List.foldl_append]
    rfl

/-- Taken for a name, a hexadecimal constant becomes longer by the way to the environment. -/
theorem length_written_hexadecimal {mark : UInt8} {digits : Text}
    (formed : (Token.hexadecimal mark digits).isFormed) :
    (Token.hexadecimal mark digits).written.length =
      (Token.hexadecimal mark digits).intended.length + 4 := by
  have named := isName_hexadecimal formed
  have marked : isOneOf "xX" mark := by
    simp only [Token.isFormed, Bool.and_eq_true] at formed
    exact formed.1.1
  have unreserved : mark :: digits ∉ Js.reservedWords := by
    have heads : (Js.reservedWords.any fun word => word.head?.any (isOneOf "xX")) = false := by rfl
    intro member
    exact List.any_eq_false.1 heads _ member marked
  have plain : Js.isPlainKey (mark :: digits) := by
    obtain ⟨first, others⟩ := Bool.and_eq_true_iff.1 named
    have bytes : digits.all Js.isIdentifierByte := by
      refine List.all_eq_true.2 fun b member => ?_
      simp [Js.isIdentifierByte, List.all_eq_true.1 others b member]
    simp [Js.isPlainKey, Js.isIdentifier, first, bytes, unreserved]
  have front : (("env" : Text) ++ ("." : Text)).length = 4 := rfl
  rw [List.length_append] at front
  simp [Token.written, Token.intended, Token.text, Token.access, Js.propertyAccess, plain]
  omega

theorem length_written (formed : ∀ token ∈ tokens, token.isFormed) :
    (tokens.flatMap Token.written).length =
      (tokens.flatMap Token.intended).length + 4 * tokens.countP Token.isHexadecimal := by
  induction tokens with
  | nil => rfl
  | cons token rest ih =>
    obtain ⟨here, others⟩ := List.forall_mem_cons.1 formed
    have behind := ih others
    have first : token.written.length =
        token.intended.length + 4 * if token.isHexadecimal then 1 else 0 := by
      cases token with
      | hexadecimal mark digits => exact length_written_hexadecimal here
      | name | dollar | braced | number | signs => rfl
    simp only [List.flatMap_cons, List.length_append, List.countP_cons]
    omega

/-- Arithmetic gives the written form of each token in turn, with an access to the environment
for each reference, and nothing else happens to the state. Unless there is a hexadecimal
constant, and only then, this is what is intended: each reference has become an access, and all
else is as it was. -/
theorem Body.arithmetic_rewrites_references (body : Body) (s : CompileState) :
    run s (arithmetic body.text) =
      (.ok body.written, afterAccess s (body.tokens.flatMap Token.accessed)) ∧
    (body.written = body.intended ↔ ∀ token ∈ body.tokens, token.isHexadecimal = false) := by
  refine ⟨run_arithmeticFrom body.formed body.delimited s, fun same token member => ?_,
    fun none => ?_⟩
  · have lengths := length_written body.formed
    rw [Body.written, Body.intended] at same
    rw [same] at lengths
    have count : body.tokens.countP Token.isHexadecimal = 0 := by omega
    simpa using List.countP_eq_zero.1 count token member
  · rw [Body.written, Body.intended, List.flatMap_def, List.flatMap_def]
    refine congrArg List.flatten (List.map_congr_left fun token member => ?_)
    cases token with
    | hexadecimal mark digits => cases none _ member
    | name | dollar | braced | number | signs => rfl

/-- `0x1F+$a`. -/
def Body.hexadecimalSum : Body where
  tokens := [.hexadecimal 'x' "1F", .signs "+", .dollar "a"]
  formed := by decide
  delimited := ⟨by rintro _ ⟨⟩; rfl, by rintro _ ⟨⟩; rfl, by rintro _ ⟨⟩, trivial⟩

theorem Body.hexadecimalSum_written :
    (run .empty (arithmetic "0x1F+$a")).1 = .ok "0env.x1F+env.a" ∧
      Body.hexadecimalSum.intended = "0x1F+env.a" := by
  have ran := (Body.hexadecimalSum.arithmetic_rewrites_references .empty).1
  exact ⟨congrArg Prod.fst ran, by decide⟩

end ShellToDeno.Arithmetic

import ReactiveView.Expr.Basic
import ReactiveView.Text.Slice

/-!
# Tokens of the embedded language

`Token.scan` cuts the text of an expression or of a code block into tokens. Blanks separate tokens
and are dropped; in a code block a line break outside brackets is a token of its own, because it
ends a statement, and a `#` starts a comment that reaches to the end of the line. Every token
records the byte offset at which it starts and the line on which it was completed.
-/

namespace ReactiveView

/-- The marks of the language. -/
inductive Mark where
  | eqEq | notEq | ltEq | gtEq | andAnd | orOr | plusEq | minusEq
  | openParen | closeParen | openBracket | closeBracket | openBrace | closeBrace
  | dot | comma | question | colon | plus | minus | star | slash | percent
  | lt | gt | bang | eq | semicolon
deriving DecidableEq

namespace Mark

/-- How a mark is written. -/
def symbol : Mark → String
  | eqEq => "=="
  | notEq => "!="
  | ltEq => "<="
  | gtEq => ">="
  | andAnd => "&&"
  | orOr => "||"
  | plusEq => "+="
  | minusEq => "-="
  | openParen => "("
  | closeParen => ")"
  | openBracket => "["
  | closeBracket => "]"
  | openBrace => "\x7b"
  | closeBrace => "\x7d"
  | dot => "."
  | comma => ","
  | question => "?"
  | colon => ":"
  | plus => "+"
  | minus => "-"
  | star => "*"
  | slash => "/"
  | percent => "%"
  | lt => "<"
  | gt => ">"
  | bang => "!"
  | eq => "="
  | semicolon => ";"

/-- The mark at the front of a text, and what follows it; the longer marks win. -/
def ofChars? : List Char → Option (Mark × List Char)
  | '=' :: '=' :: rest => some (eqEq, rest)
  | '!' :: '=' :: rest => some (notEq, rest)
  | '<' :: '=' :: rest => some (ltEq, rest)
  | '>' :: '=' :: rest => some (gtEq, rest)
  | '&' :: '&' :: rest => some (andAnd, rest)
  | '|' :: '|' :: rest => some (orOr, rest)
  | '+' :: '=' :: rest => some (plusEq, rest)
  | '-' :: '=' :: rest => some (minusEq, rest)
  | '(' :: rest => some (openParen, rest)
  | ')' :: rest => some (closeParen, rest)
  | '[' :: rest => some (openBracket, rest)
  | ']' :: rest => some (closeBracket, rest)
  | '\x7b' :: rest => some (openBrace, rest)
  | '\x7d' :: rest => some (closeBrace, rest)
  | '.' :: rest => some (dot, rest)
  | ',' :: rest => some (comma, rest)
  | '?' :: rest => some (question, rest)
  | ':' :: rest => some (colon, rest)
  | '+' :: rest => some (plus, rest)
  | '-' :: rest => some (minus, rest)
  | '*' :: rest => some (star, rest)
  | '/' :: rest => some (slash, rest)
  | '%' :: rest => some (percent, rest)
  | '<' :: rest => some (lt, rest)
  | '>' :: rest => some (gt, rest)
  | '!' :: rest => some (bang, rest)
  | '=' :: rest => some (eq, rest)
  | ';' :: rest => some (semicolon, rest)
  | _ => none

end Mark

/-- Why a text is no expression or no list of statements. -/
inductive SyntaxCause where
  /-- A text literal has no closing quote. -/
  | unterminatedString
  /-- A backslash in a text literal stands before a character that is not ASCII. -/
  | brokenEscape
  /-- An integer literal is out of range. -/
  | invalidNumber
  /-- No token starts with the character. -/
  | unexpectedCharacter (c : Char)
  /-- Another mark should stand here. -/
  | expectedMark (mark : Mark)
  /-- A name that is not reserved should stand here. -/
  | expectedName
  /-- A member name should follow a point. -/
  | expectedMember
  /-- The variable of a loop should be followed by `in`. -/
  | expectedIn
  /-- A statement should end here. -/
  | expectedStatementEnd
  /-- A reserved word cannot be assigned to. -/
  | reservedTarget (name : String)
  /-- A reserved word stands where an operand should. -/
  | unexpectedKeyword (name : String)
  /-- A mark stands where an operand should. -/
  | unexpectedMark (mark : Mark)
  /-- The expression is not complete. -/
  | unexpectedEnd
  /-- The expression is complete and something follows it. -/
  | trailingInput
deriving DecidableEq

/-- The message of a cause. -/
def SyntaxCause.message : SyntaxCause → String
  | unterminatedString => "unterminated string"
  | brokenEscape => "broken escape"
  | invalidNumber => "invalid number"
  | unexpectedCharacter c => "unexpected character '" ++ c.toString ++ "'"
  | expectedMark mark => "expected '" ++ mark.symbol ++ "'"
  | expectedName => "expected a name"
  | expectedMember => "expected a member name after '.'"
  | expectedIn => "expected 'in'"
  | expectedStatementEnd => "expected end of statement"
  | reservedTarget name => "cannot assign to '" ++ name ++ "'"
  | unexpectedKeyword name => "unexpected keyword '" ++ name ++ "'"
  | unexpectedMark mark => "unexpected '" ++ mark.symbol ++ "'"
  | unexpectedEnd => "unexpected end of expression"
  | trailingInput => "unexpected trailing input"

/-- A text that is no expression or no list of statements. -/
structure SyntaxError where
  /-- Why. -/
  cause : SyntaxCause
  /-- The byte offset at which reading stopped. -/
  offset : Nat
  /-- The line on which reading stopped, counted from one. -/
  line : Nat
deriving DecidableEq

/-- What a token is. -/
inductive Lexeme where
  /-- A name or a reserved word. -/
  | name (x : String)
  /-- An integer. -/
  | int (i : Int64)
  /-- A double. -/
  | float (x : Float)
  /-- A text. -/
  | str (s : String)
  /-- A mark. -/
  | mark (m : Mark)
  /-- The end of a line in a code block. -/
  | newline

/-- A token and where it stands. -/
structure Token where
  /-- What it is. -/
  lexeme : Lexeme
  /-- The byte offset of its first character. -/
  offset : Nat
  /-- The line on which it was completed. -/
  line : Nat

/-- The tokens of a text, and the place of its end. -/
structure TokenList where
  /-- The tokens in order. -/
  tokens : List Token
  /-- The byte length of the text. -/
  endOffset : Nat
  /-- The last line. -/
  endLine : Nat

namespace Token

/-- Whether a character may start a name. -/
def isNameStart (c : Char) : Bool := c == '_' || c == '$' || Text.isAsciiLetter c

/-- Whether a character may continue a name. -/
def isNamePart (c : Char) : Bool := isNameStart c || Text.isAsciiDigit c

/-- The character that an escape stands for: line break, tab, or the character itself. -/
def unescape (c : Char) : Char :=
  if c = 'n' then '\n' else if c = 't' then '\t' else c

/-- What was read of a text literal after its opening quote. -/
structure Quoted where
  /-- The characters of the text. -/
  value : List Char
  /-- The bytes that were read, the closing quote included. -/
  bytes : Nat
  /-- The line of the closing quote. -/
  line : Nat
  /-- What follows the closing quote. -/
  rest : List Char

/-- Read a text literal up to the closing quote. A failure carries the line it was noticed on. -/
def quoted (quote : Char) (line : Nat) : List Char → Except (SyntaxCause × Nat) Quoted
  | [] => .error (.unterminatedString, line)
  | c :: cs =>
    if c = quote then .ok ⟨[], 1, line, cs⟩
    else if c = '\\' then
      match cs with
      | [] => .error (.unterminatedString, line)
      | e :: cs =>
        if e.toNat < 128 then
          (quoted quote line cs).map fun q => ⟨unescape e :: q.value, q.bytes + 2, q.line, q.rest⟩
        else .error (.brokenEscape, line)
    else
      (quoted quote (if c = '\n' then line + 1 else line) cs).map fun q =>
        ⟨c :: q.value, q.bytes + c.utf8Size, q.line, q.rest⟩

/-- Read a number: digits, and a fraction if a point stands before a further digit. The digits that
were read come with it. -/
def number (cs : List Char) : Option Lexeme × List Char × List Char :=
  let (whole, rest) := cs.span Text.isAsciiDigit
  match rest with
  | '.' :: d :: tail =>
    if Text.isAsciiDigit d then
      let (fraction, rest) := (d :: tail).span Text.isAsciiDigit
      let written := whole ++ '.' :: fraction
      ((readDecimal? false written).map .float, written, rest)
    else ((readInt64? whole).map .int, whole, rest)
  | _ => ((readInt64? whole).map .int, whole, rest)

/-- Where scanning has got to. -/
structure Place where
  /-- The byte offset. -/
  offset : Nat
  /-- The line. -/
  line : Nat
  /-- How many more round and square brackets were opened than closed. -/
  depth : Int

/-- One step of scanning at a nonempty text: the token that was read, if any, the new place, and
what is left. -/
def step (statements : Bool) (p : Place) (c : Char) (cs : List Char) :
    Except SyntaxError (Option Token × Place × List Char) :=
  if c = '\n' then
    let token := if statements && p.depth ≤ 0 then some ⟨.newline, p.offset, p.line⟩ else none
    .ok (token, { p with offset := p.offset + 1, line := p.line + 1 }, cs)
  else if c = ' ' ∨ c = '\t' ∨ c = '\r' then .ok (none, { p with offset := p.offset + 1 }, cs)
  else if statements && c == '#' then
    let (comment, rest) := cs.span (· != '\n')
    .ok (none, { p with offset := p.offset + 1 + Text.byteLength comment }, rest)
  else if c = '"' ∨ c = '\'' then
    match quoted c p.line cs with
    | .error (cause, line) => .error ⟨cause, p.offset, line⟩
    | .ok q =>
      .ok (some ⟨.str (String.ofList q.value), p.offset, q.line⟩,
        { p with offset := p.offset + 1 + q.bytes, line := q.line }, q.rest)
  else if Text.isAsciiDigit c then
    match number (c :: cs) with
    | (none, _, _) => .error ⟨.invalidNumber, p.offset, p.line⟩
    | (some lexeme, written, rest) =>
      .ok (some ⟨lexeme, p.offset, p.line⟩, { p with offset := p.offset + written.length }, rest)
  else if isNameStart c then
    let (name, rest) := (c :: cs).span isNamePart
    .ok (some ⟨.name (String.ofList name), p.offset, p.line⟩,
      { p with offset := p.offset + name.length }, rest)
  else
    match Mark.ofChars? (c :: cs) with
    | none => .error ⟨.unexpectedCharacter c, p.offset, p.line⟩
    | some (m, rest) =>
      let depth := match m with
        | .openParen | .openBracket => p.depth + 1
        | .closeParen | .closeBracket => p.depth - 1
        | _ => p.depth
      .ok (some ⟨.mark m, p.offset, p.line⟩,
        { p with offset := p.offset + m.symbol.length, depth := depth }, rest)

/-- Scan from a place on. Every step reads a character, so as many steps as there are characters are
enough. -/
def scanFrom (statements : Bool) : (steps : Nat) → Place → List Char → Except SyntaxError TokenList
  | _, p, [] => .ok ⟨[], p.offset, p.line⟩
  | 0, p, _ :: _ => .ok ⟨[], p.offset, p.line⟩
  | steps + 1, p, c :: cs => do
    let (token, p, rest) ← step statements p c cs
    let list ← scanFrom statements steps p rest
    match token with
    | some t => return { list with tokens := t :: list.tokens }
    | none => return list

/-- The tokens of a text, read as a code block or as an expression. -/
def scan (statements : Bool) (source : String) : Except SyntaxError TokenList :=
  let cs := source.toList
  scanFrom statements cs.length ⟨0, 1, 0⟩ cs

end Token
end ReactiveView

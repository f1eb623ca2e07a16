import ReactiveView.Expr.Parser
import ReactiveView.Template.Basic
import ReactiveView.Template.Error
import ReactiveView.Template.Options
import ReactiveView.Template.Tag
import ReactiveView.Text.Blank

/-!
# Reading templates

A template source is markup with control words and expressions in double braces. `parseTemplate`
reads it in one pass: tags and attributes are classified as they are read, and the expressions and
statements in them are read at once, so that a template that loads is known to be well formed.

Siblings are read up to something that belongs to an enclosing construct (`Stop`), which the
construct that asked for them judges. Only that step is recursive: `nodesAt` reads siblings with a
bounded number of steps, each of which consumes at least one character.
-/

namespace ReactiveView

namespace TemplateReader

/-- How far a source has been read. -/
structure Cursor where
  /-- What is left. -/
  rest : List Char
  /-- Where that starts. -/
  position : Position

/-- What stays the same while a source is read. -/
structure Context where
  /-- The whole source. -/
  source : List Char
  /-- How it is read. -/
  options : ParserOptions

end TemplateReader

/-- A reader of the front of what is left of a source. -/
abbrev TemplateReader (α : Type) :=
  ReaderT TemplateReader.Context (StateT TemplateReader.Cursor (Except TemplateError)) α

namespace TemplateReader

variable {α : Type}

/-- What is left. -/
def rest : TemplateReader (List Char) := do return (← get).rest

/-- Where the reader stands. -/
def here : TemplateReader Position := do return (← get).position

/-- Fail at a place. -/
def fail (fault : TemplateFault) (position : Position) (detail : Option String) :
    TemplateReader α := do
  throw ⟨fault, (← read).options.filename, position, detail⟩

/-- Fail at an offset of the source. -/
def failAt (fault : TemplateFault) (offset : Nat) (detail : Option String) : TemplateReader α := do
  fail fault (Position.ofOffset (← read).source offset) detail

/-- The stretch from a place up to where the reader stands. -/
def spanFrom (start : Position) : TemplateReader Span := do return ⟨start, ← here⟩

/-- Step over characters that are at the front. -/
def skipOver (cs : List Char) (rest : List Char) : TemplateReader Unit :=
  modify fun c => ⟨rest, c.position.after cs⟩

/-- Read characters while they satisfy `p`. -/
def takeWhile (p : Char → Bool) : TemplateReader (List Char) := do
  let (taken, rest) := (← rest).span p
  skipOver taken rest
  return taken

/-- Step over ASCII blanks. -/
def skipBlanks : TemplateReader Unit := do
  let _ ← takeWhile Text.isAsciiBlank

/-- Step over `start` if it is at the front. -/
def eat (start : String) : TemplateReader Bool := do
  match Text.dropPrefix? start.toList (← rest) with
  | some rest =>
    skipOver start.toList rest
    return true
  | none => return false

/-- Read up to the first occurrence of `needle` and step over that too. -/
def takeThrough? (needle : String) : TemplateReader (Option (List Char)) := do
  match Text.splitAt? needle.toList (← rest) with
  | some (before, rest) =>
    skipOver (before ++ needle.toList) rest
    return some before
  | none => return none

/-! ## What is at the front -/

/-- Whether a character may be part of a tag. -/
def isTagChar (c : Char) : Bool :=
  Text.isAsciiLetter c || Text.isAsciiDigit c || c == '-' || c == '_' || c == ':' || c == '.' ||
    c == '$' || c == '@'

/-- Whether a tag opens here. -/
def atTagOpen : List Char → Bool
  | '<' :: c :: _ => Text.isAsciiLetter c || c == '$' || c == '@'
  | _ => false

/-- Whether text ends here. -/
def atMarkup : List Char → Bool
  | '\x7b' :: '\x7b' :: _ => true
  | '<' :: '/' :: _ => true
  | '<' :: '!' :: '-' :: '-' :: _ => true
  | cs => atTagOpen cs

/-- Text up to the next markup, and what follows it. -/
def splitText : List Char → List Char × List Char
  | [] => ([], [])
  | c :: cs =>
    if atMarkup (c :: cs) then ([], c :: cs)
    else
      let (text, rest) := splitText cs
      (c :: text, rest)

/-! ## Expressions inside the source -/

/-- Read an expression of the source; its errors are placed relative to an offset. -/
def expression (source : List Char) (offset : Nat) : TemplateReader Expr := do
  match parseExpression (String.ofList source) with
  | .ok e => return e
  | .error e => failAt .invalidExpression (offset + e.offset) (some e.cause.message)

/-- The text without a given first and last character, if it has both. -/
def unwrap? (first last : Char) (cs : List Char) : Option (List Char) :=
  match cs with
  | c :: cs =>
    if c = first then
      match cs.reverse with
      | d :: inner => if d = last then some inner.reverse else none
      | [] => none
    else none
  | [] => none

/-- The pieces of a format value between backticks, the odd ones being expressions; also whether one
of those is marked as reactive. -/
def formatParts (offset : Nat) (isExpr : Bool) : List (List Char) →
    TemplateReader (List FormatPart × Bool)
  | [] => return ([], false)
  | segment :: segments =>
    if isExpr then do
      let trimmed := Text.trim segment
      let (marked, body) : Bool × List Char :=
        match trimmed with
        | '!' :: body => (true, body)
        | _ => (false, trimmed)
      let source := (unwrap? '\x7b' '\x7d' body).getD body
      let e ← expression source offset
      let (parts, reactive) ← formatParts offset false segments
      return (.expr e :: parts, marked || reactive)
    else do
      let (parts, reactive) ← formatParts offset true segments
      if segment.isEmpty then return (parts, reactive)
      else return (.text (String.ofList segment) :: parts, reactive)

/-- The meaning of a quoted attribute value: an expression in braces, a format with pairs of
backticks, or a literal. -/
def attributeValue (raw : List Char) (offset : Nat) : TemplateReader AttrValue := do
  let trimmed := Text.trim raw
  let (reactive, body) : Bool × List Char :=
    match trimmed with
    | '!' :: '\x7b' :: tail => (true, '\x7b' :: tail)
    | _ => (false, trimmed)
  match unwrap? '\x7b' '\x7d' body with
  | some source =>
    let e ← expression source offset
    return .dynamic (.of e reactive (String.ofList source))
  | none =>
    let ticks := raw.count '\x60'
    if 2 ≤ ticks && ticks % 2 == 0 then
      let (parts, reactive) ← formatParts offset false (Text.splitBy (· == '\x60') raw)
      return .dynamic (.of (.format parts) reactive (String.ofList raw))
    else return .literal (String.ofList raw)

/-- The value behind an attribute name: nothing, or a quoted text. -/
def attributeOperand (name : String) (start : Position) : TemplateReader AttrValue := do
  if ← eat "=" then
    skipBlanks
    match ← rest with
    | [] => fail .missingAttributeValue start none
    | quote :: _ =>
      if quote = '"' ∨ quote = '\'' then
        let _ ← eat quote.toString
        let valueStart ← here
        match ← takeThrough? quote.toString with
        | some raw => attributeValue raw valueStart.offset
        | none => fail .unexpectedEof valueStart none
      else fail .unquotedAttributeValue start (some name)
  else return .empty

/-- The attributes of a tag, up to its end. Each consumes a character, so that `steps` can be the
length of what is left. -/
def attributesAt : (steps : Nat) → TemplateReader (List Attribute)
  | 0 => do fail .unexpectedEof (← here) none
  | steps + 1 => do
    skipBlanks
    match ← rest with
    | [] => fail .unexpectedEof (← here) none
    | '>' :: _ => return []
    | '/' :: '>' :: _ => return []
    | _ =>
      let start ← here
      let name ← takeWhile fun c => !(Text.isAsciiBlank c || c == '=' || c == '>' || c == '/')
      if name.isEmpty then fail .invalidTagName start none
      let name := String.ofList name
      skipBlanks
      let value ← attributeOperand name start
      let first : Attribute := ⟨name, .ofName name, value, ← spanFrom start⟩
      return first :: (← attributesAt steps)

/-- The attributes of a tag. -/
def attributes : TemplateReader (List Attribute) := do attributesAt ((← rest).length + 1)

/-! ## Siblings -/

/-- What ended a run of siblings, and where it starts. -/
inductive Stop where
  /-- The end of the source. -/
  | eof
  /-- A close tag. -/
  | closeTag (name : String) (start : Position)
  /-- A further condition. -/
  | elseIf (condition : DynamicExpr) (start : Position)
  /-- The alternative of a condition, or the empty case of a loop. -/
  | otherwise (start : Position)
  /-- The end of a control construct. -/
  | endMark (name : String) (start : Position)

/-- Siblings and what ended them. -/
abbrev Siblings := List Node × Stop

/-- What was read at the front. -/
inductive Item where
  /-- A node. -/
  | node (n : Node)
  /-- Something that leaves no node. -/
  | nothing
  /-- The end of the siblings. -/
  | stop (s : Stop)

/-- A control word as it is written. -/
def mustache (s : String) : String := "\x7b\x7b" ++ s ++ "\x7d\x7d"

/-- The header of a node without attributes. -/
def headerFrom (tag : String) (start : Position) : TemplateReader Header := do
  return ⟨tag, [], ← spanFrom start, 0⟩

/-- The children of a tag, up to its close tag. -/
def childrenOf (siblings : TemplateReader Siblings) (tag : String) (start : Position) :
    TemplateReader (List Node) := do
  let (children, stop) ← siblings
  match stop with
  | .closeTag name close =>
    if name = tag then return Node.arrange children
    else
      fail .mismatchedCloseTag close
        (some ("expected </" ++ tag ++ ">, found </" ++ name ++ ">"))
  | .eof => fail .unclosedTag start (some ("<" ++ tag ++ ">"))
  | .elseIf _ place => fail .misplacedElse place none
  | .otherwise place => fail .misplacedElse place none
  | .endMark name place =>
    fail .mismatchedMacroClose place (some (mustache ("/" ++ name) ++ " inside <" ++ tag ++ ">"))

/-- The content of a raw block, up to its close tag. -/
def rawBody (tag : String) (selfClosing : Bool) (start : Position) :
    TemplateReader (List Char) := do
  if selfClosing then return []
  match ← takeThrough? ("</" ++ tag ++ ">") with
  | some body => return body
  | none => fail .unclosedTag start (some ("<" ++ tag ++ ">"))

/-- The substitutions of a script block as parts of a format string. `rounds` bounds their number.
-/
def scriptParts : (rounds : Nat) → (offset : Nat) → List Char → TemplateReader (List FormatPart)
  | 0, _, _ => return []
  | rounds + 1, offset, body =>
    match Text.splitAt? ['\x7b', '\x7b'] body with
    | none => return if body.isEmpty then [] else [.text (String.ofList body)]
    | some (before, after) => do
      let opened := offset + Text.byteLength before
      match Text.splitAt? ['\x7d', '\x7d'] after with
      | none => failAt .unclosedMacro opened none
      | some (source, tail) =>
        let e ← expression (Text.trim source) (opened + 2)
        let parts ← scriptParts rounds (opened + 4 + Text.byteLength source) tail
        let parts := FormatPart.expr e :: parts
        return if before.isEmpty then parts else .text (String.ofList before) :: parts

/-- The statements of a code block whose content starts at a place. -/
def statements (body : List Char) (offset line : Nat) : TemplateReader (List Stmt) := do
  match parseStatements (String.ofList body) with
  | .ok ss => return ss
  | .error e =>
    fail .invalidStatement ⟨offset + e.offset, line + e.line - 1, 1⟩ (some e.cause.message)

/-- Remove the first attribute of a name. -/
def takeAttribute? (name : String) : List Attribute → Option (Attribute × List Attribute)
  | [] => none
  | a :: rest =>
    if a.name = name then some (a, rest)
    else (takeAttribute? name rest).map fun (found, others) => (found, a :: others)

/-- A directive behind its open tag. -/
def directive (siblings : TemplateReader Siblings) (tag : String) (attributes : List Attribute)
    (selfClosing : Bool) (start : Position) : TemplateReader Node := do
  let content ← here
  let children : TemplateReader (List Node) :=
    if selfClosing then return [] else childrenOf siblings tag start
  let header (name : String) : TemplateReader Header := do
    return ⟨name, attributes, ← spanFrom start, 0⟩
  let missing {α : Type} (detail : String) : TemplateReader α :=
    fail .missingDirectiveAttribute start (some detail)
  match Tag.directiveName tag with
  | "python" =>
    let body ← rawBody tag selfClosing start
    let ss ← statements body content.offset content.line
    return .code (← header "@python") (String.ofList body) ss content.line
  | "style" =>
    let body ← rawBody tag selfClosing start
    return .style (← header "@style") (String.ofList body) (Attribute.has attributes "global")
      content.line
  | "script" =>
    let body ← rawBody tag selfClosing start
    let parts ← scriptParts (body.length + 1) content.offset body
    return .script (← header "@script") (.of (.format parts) false (String.ofList body))
      content.line
  | "slot" =>
    let cs ← children
    return .slot (← header "@slot") (Attribute.literal? attributes "name") cs
  | "event" =>
    let cs ← children
    return .event (← header "@event") (Attribute.has attributes "global") cs
  | "scope" =>
    let cs ← children
    return .scope (← header "@scope") cs
  | "react" =>
    let cs ← children
    match Attribute.literal? attributes "to", Attribute.literal? attributes "action" with
    | some signal, some action => return .signal (← header "@react") signal action cs
    | _, _ => missing "<react> needs 'to' and 'action'"
  | "component" =>
    match takeAttribute? "is" attributes with
    | none => missing "<component> needs 'is'"
    | some (is, others) =>
      let name ← match is.value with
        | .literal name => pure (ComponentName.fixed name)
        | .dynamic e => pure (ComponentName.dynamic e)
        | .empty => missing "<component> needs 'is'"
      let cs ← children
      return .component ⟨"component", others, ← spanFrom start, 0⟩ name cs
  | _ => fail .invalidTagName start (some tag)

/-- A tag with its content. At the top of a template a root may stand. -/
def element (siblings : TemplateReader Siblings) (top : Bool) : TemplateReader Node := do
  let start ← here
  let _ ← eat "<"
  let tag := String.ofList (← takeWhile isTagChar)
  let attributes ← attributes
  let selfClosing ← eat "/>"
  if !selfClosing then
    if !(← eat ">") then fail .unclosedTag start none
  let children : TemplateReader (List Node) :=
    if selfClosing then return [] else childrenOf siblings tag start
  let header : TemplateReader Header := do return ⟨tag, attributes, ← spanFrom start, 0⟩
  match TagClass.ofTag tag with
  | .root =>
    if !top then fail .misplacedRoot start none
    let cs ← children
    return .root (← header) cs
  | .control => fail .invalidTagName start (some tag)
  | .directive => directive siblings tag attributes selfClosing start
  | .component =>
    let cs ← children
    return .component (← header) (.fixed tag) cs
  | .element =>
    let cs ← if Tag.isVoid tag then pure [] else children
    return .element (← header) cs

/-- The error of a control construct that is not closed as it should be. -/
def macroCloseError (expected : String) (stop : Stop) (start : Position) : TemplateReader α :=
  match stop with
  | .eof => fail .unclosedMacro start (some ("#" ++ expected))
  | .endMark name place =>
    fail .mismatchedMacroClose place
      (some ("expected " ++ mustache ("/" ++ expected) ++ ", found " ++ mustache ("/" ++ name)))
  | .closeTag name place =>
    fail .unexpectedCloseTag place (some ("</" ++ name ++ "> inside #" ++ expected))
  | .elseIf _ place => fail .misplacedElse place none
  | .otherwise place => fail .misplacedElse place none

/-- The branches of a condition, from the content of the first on. Each but the last is followed by
another; `rounds` bounds their number. -/
def branches (siblings : TemplateReader Siblings) (reactive : Bool) (start : Position) :
    (rounds : Nat) → (predicate : Option DynamicExpr) → (seenElse : Bool) →
    TemplateReader (List (Option DynamicExpr × List Node))
  | 0, _, _ => macroCloseError "if" .eof start
  | rounds + 1, predicate, seenElse => do
    let (children, stop) ← siblings
    let branch := (predicate, Node.arrange children)
    match stop, seenElse with
    | .elseIf condition _, false =>
      let next := some { condition with reactive := reactive }
      return branch :: (← branches siblings reactive start rounds next false)
    | .otherwise _, false =>
      return branch :: (← branches siblings reactive start rounds none true)
    | .endMark "if" _, _ => return [branch]
    | other, _ => macroCloseError "if" other start

/-- The place of the first `needle` outside of quotes: what stands before and behind it. -/
def splitUnquoted (needle : Char) (quote : Option Char) : List Char →
    Option (List Char × List Char)
  | [] => none
  | c :: cs =>
    let skip (quote : Option Char) : Option (List Char × List Char) :=
      (splitUnquoted needle quote cs).map fun (before, after) => (c :: before, after)
    match quote with
    | some q => skip (if c = q then none else some q)
    | none =>
      if c = '"' ∨ c = '\'' then skip (some c)
      else if c = needle then some ([], cs)
      else skip none

/-- The parts of a loop head: its variable, and what follows the word `in` and a blank. -/
def loopHead? (args : List Char) : Option (String × List Char) :=
  let (var, rest) := args.span (!Text.isBlank ·)
  match rest with
  | [] => none
  | _ :: rest =>
    match Text.trimStart rest with
    | 'i' :: 'n' :: c :: rest =>
      let name := String.ofList var
      if Text.isBlank c && isIdentifier name then some (name, c :: rest) else none
    | _ => none

/-- A loop behind its head. -/
def loop (siblings : TemplateReader Siblings) (args : List Char) (reactive : Bool)
    (start : Position) : TemplateReader Node := do
  match loopHead? args with
  | none => fail .malformedFor start (some (String.ofList args))
  | some (var, rest) =>
    let (iterSource, identitySource) : List Char × Option (List Char) :=
      match splitUnquoted '#' none rest with
      | some (before, after) => (Text.trim before, some (Text.trim after))
      | none => (Text.trim rest, none)
    let offset := start.offset + 2
    let e ← expression iterSource offset
    let iterable := DynamicExpr.of e reactive (String.ofList iterSource)
    let identity ← match identitySource with
      | some source => do
        let e ← expression source offset
        pure (some (DynamicExpr.of e false (String.ofList source)))
      | none => pure none
    let (body, stop) ← siblings
    let empty ← match stop with
      | .endMark "for" _ => pure none
      | .otherwise _ => do
        let (nodes, stop) ← siblings
        match stop with
        | .endMark "for" _ => pure (some (Node.arrange nodes))
        | other => macroCloseError "for" other start
      | other => macroCloseError "for" other start
    return .loop (← headerFrom "#for" start) var iterable identity (Node.arrange body) empty

/-- A binding behind its head. -/
def binding (siblings : TemplateReader Siblings) (args : List Char) (reactive : Bool)
    (start : Position) : TemplateReader Node := do
  let malformed : TemplateReader Node :=
    fail .missingSetAssign start (some (String.ofList args))
  match Text.splitAt? [':', '='] args with
  | none => malformed
  | some (name, source) =>
    let name := String.ofList (Text.trim name)
    if !isIdentifier name then malformed
    else
      let source := Text.trim source
      let e ← expression source (start.offset + 2)
      let value := DynamicExpr.of e reactive (String.ofList source)
      let (body, stop) ← siblings
      match stop with
      | .endMark "set" _ =>
        return .binding (← headerFrom "#set" start) name value (Node.arrange body)
      | other => macroCloseError "set" other start

/-- An expression or a control word in double braces. -/
def mustacheItem (siblings : TemplateReader Siblings) : TemplateReader Item := do
  let start ← here
  let _ ← eat "\x7b\x7b"
  match ← takeThrough? "\x7d\x7d" with
  | none => fail .unclosedMacro start none
  | some content =>
    let offset := start.offset + 2
    let trimmed := Text.trim content
    let (reactive, body) : Bool × List Char :=
      match trimmed with
      | '!' :: tail => (true, Text.trimStart tail)
      | _ => (false, trimmed)
    match body with
    | '/' :: name => return .stop (.endMark (String.ofList (Text.trim name)) start)
    | '#' :: tail =>
      let (keyword, args) := tail.span (!Text.isBlank ·)
      let args := Text.trim args
      let condition : TemplateReader DynamicExpr := do
        let e ← expression args offset
        return .of e reactive (String.ofList args)
      match String.ofList keyword with
      | "if" =>
        let first ← condition
        let rounds := (← rest).length + 1
        let bs ← branches siblings reactive start rounds (some first) false
        return .node (.choice (← headerFrom "#if" start) reactive bs)
      | "elif" => return .stop (.elseIf (← condition) start)
      | "else" => return .stop (.otherwise start)
      | "for" => return .node (← loop siblings args reactive start)
      | "set" => return .node (← binding siblings args reactive start)
      | other => fail .unknownMacro start (some other)
    | _ =>
      let e ← expression body offset
      let expr := DynamicExpr.of e reactive (String.ofList body)
      return .node (.dynamicText (← headerFrom "@macro" start) expr)

/-- Text up to the next markup. At least one character is read, even if it could begin markup. -/
def textItem : TemplateReader Item := do
  let start ← here
  match ← rest with
  | [] => return .nothing
  | c :: cs =>
    let (tail, rest) := splitText cs
    let raw := c :: tail
    skipOver raw rest
    let options := (← read).options
    let trimmed := Text.trim raw
    if options.dropWhitespace && trimmed.isEmpty then return .nothing
    else
      let text := if options.trimText then trimmed else raw
      return .node (.text (← headerFrom "@text" start) (String.ofList text))

/-- A comment. -/
def commentItem : TemplateReader Item := do
  let start ← here
  match ← takeThrough? "-->" with
  | some _ => return .nothing
  | none => fail .unexpectedEof start none

/-- A close tag. -/
def closeTagItem : TemplateReader Item := do
  let start ← here
  let _ ← eat "</"
  let name := String.ofList (← takeWhile isTagChar)
  skipBlanks
  if ← eat ">" then return .stop (.closeTag name start)
  else fail .unclosedTag start none

/-- What is at the front. `siblings` reads the content of what is nested. -/
def item (siblings : TemplateReader Siblings) (top : Bool) : TemplateReader Item := do
  match ← rest with
  | [] => return .stop .eof
  | '<' :: '!' :: '-' :: '-' :: _ => commentItem
  | '<' :: '/' :: _ => closeTagItem
  | '\x7b' :: '\x7b' :: _ => mustacheItem siblings
  | cs => if atTagOpen cs then return .node (← element siblings top) else textItem

/-- Siblings up to what ends them. Each step reads something at the front or is the last, so that
the length of what is left bounds the steps. -/
def nodesAt : (steps : Nat) → (top : Bool) → TemplateReader Siblings
  | 0, _ => return ([], .eof)
  | steps + 1, top => do
    match ← item (nodesAt steps false) top with
    | .stop s => return ([], s)
    | .nothing => nodesAt steps top
    | .node n =>
      let (ns, s) ← nodesAt steps top
      return (n :: ns, s)

/-- A whole template. Several nodes, or one that is no root, get a root named after the file. -/
def template : TemplateReader Node := do
  let (nodes, stop) ← nodesAt ((← rest).length + 1) true
  match stop with
  | .eof => pure ()
  | .closeTag name place => fail .unexpectedCloseTag place (some ("</" ++ name ++ ">"))
  | .elseIf _ place => fail .misplacedElse place none
  | .otherwise place => fail .misplacedElse place none
  | .endMark name place => fail .mismatchedMacroClose place (some (mustache ("/" ++ name)))
  match nodes.find? Node.isRoot, nodes with
  | some root, [_] => return root
  | some root, _ => fail .misplacedRoot root.header.span.start none
  | none, _ =>
    let tag := "$" ++ rootName (← read).options.filename
    return .root ⟨tag, [], ← spanFrom .start, 0⟩ (Node.arrange nodes)

end TemplateReader

/-- Read a template source. -/
def parseTemplate (source : String) (options : ParserOptions) : Except TemplateError Node :=
  let cs := source.toList
  (TemplateReader.template ⟨cs, options⟩ ⟨cs, .start⟩).map (·.1)

end ReactiveView

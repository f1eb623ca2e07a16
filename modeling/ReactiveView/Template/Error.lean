import ReactiveView.Template.Position

/-!
# Template errors

Why a template source cannot be read, and where.
-/

namespace ReactiveView

/-- Why a template source cannot be read. -/
inductive TemplateFault where
  | unexpectedEof | invalidTagName | missingAttributeValue | unquotedAttributeValue
  | unclosedTag | mismatchedCloseTag | unexpectedCloseTag
  | unclosedMacro | mismatchedMacroClose | unknownMacro | misplacedElse
  | missingSetAssign | malformedFor | invalidExpression | invalidStatement
  | misplacedRoot | missingDirectiveAttribute
deriving DecidableEq, Repr

/-- The message of a fault. -/
def TemplateFault.message : TemplateFault → String
  | unexpectedEof => "Unexpected end of template."
  | invalidTagName => "Invalid tag name."
  | missingAttributeValue => "Attribute value expected after '='."
  | unquotedAttributeValue => "Attribute values must be quoted."
  | unclosedTag => "Element is missing its end tag."
  | mismatchedCloseTag => "Close tag doesn't match the open tag."
  | unexpectedCloseTag => "Close tag without a matching open tag."
  | unclosedMacro => "Control macro is missing its end marker."
  | mismatchedMacroClose => "Macro end marker doesn't match the open macro."
  | unknownMacro => "Unknown control macro."
  | misplacedElse => "'#else' or '#elif' outside of a matching macro."
  | missingSetAssign => "'#set' requires 'name := expression'."
  | malformedFor => "'#for' requires 'name in expression'."
  | invalidExpression => "Invalid expression."
  | invalidStatement => "Invalid statement in code block."
  | misplacedRoot => "'$' root may only appear as the outermost node."
  | missingDirectiveAttribute => "Directive is missing a required attribute."

/-- The name by which a host tells a fault from others. -/
def TemplateFault.name : TemplateFault → String
  | unexpectedEof => "UnexpectedEof"
  | invalidTagName => "InvalidTagName"
  | missingAttributeValue => "MissingAttributeValue"
  | unquotedAttributeValue => "UnquotedAttributeValue"
  | unclosedTag => "UnclosedTag"
  | mismatchedCloseTag => "MismatchedCloseTag"
  | unexpectedCloseTag => "UnexpectedCloseTag"
  | unclosedMacro => "UnclosedMacro"
  | mismatchedMacroClose => "MismatchedMacroClose"
  | unknownMacro => "UnknownMacro"
  | misplacedElse => "MisplacedElse"
  | missingSetAssign => "MissingSetAssign"
  | malformedFor => "MalformedFor"
  | invalidExpression => "InvalidExpression"
  | invalidStatement => "InvalidStatement"
  | misplacedRoot => "MisplacedRoot"
  | missingDirectiveAttribute => "MissingDirectiveAttribute"

/-- A template source that cannot be read. -/
structure TemplateError where
  /-- Why. -/
  fault : TemplateFault
  /-- The name of the source. -/
  file : String
  /-- Where. -/
  position : Position
  /-- What in particular. -/
  detail : Option String
deriving DecidableEq, Repr

/-- The message of an error: file, line and column, the fault, and the detail in parentheses. -/
def TemplateError.message (e : TemplateError) : String :=
  let suffix := match e.detail with
    | some d => " (" ++ d ++ ")"
    | none => ""
  e.file ++ ":" ++ toString e.position.line ++ ":" ++ toString e.position.column ++ ": " ++
    e.fault.message ++ suffix

end ReactiveView

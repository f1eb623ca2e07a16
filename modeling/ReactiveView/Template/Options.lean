import ReactiveView.Json.Decode
import ReactiveView.Text.Blank

/-!
# Reader options

How template sources are read, as it is configured, and how templates are named after their files.
-/

namespace ReactiveView

/-- How sources are read. -/
structure ParserOptions where
  /-- The name of the source in errors; it also names a template without an explicit root. -/
  filename : String := "anonymous.html"
  /-- Whether text of blanks alone is dropped. -/
  dropWhitespace : Bool := true
  /-- Whether blanks around text are dropped. -/
  trimText : Bool := false
deriving DecidableEq, Repr

/-- Read options; those that are left out have their usual values. -/
def ParserOptions.decoder : Decoder ParserOptions :=
  .record ["filename", "dropWhitespace", "trimText"] fun f => do
    let usual : ParserOptions := {}
    return ⟨← f.withDefault "filename" usual.filename .text,
      ← f.withDefault "dropWhitespace" usual.dropWhitespace .bool,
      ← f.withDefault "trimText" usual.trimText .bool⟩

/-- The name of the template in a file: the last part of the path up to its first point. -/
def rootName (filename : String) : String :=
  let parts := Text.splitBy (fun c => c == '/' || c == '\\') filename.toList
  let last := parts.getLast?.getD []
  String.ofList (last.takeWhile (· != '.'))

end ReactiveView

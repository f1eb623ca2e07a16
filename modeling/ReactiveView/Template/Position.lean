import ReactiveView.Text.Slice

/-!
# Positions

Places in a template source: byte offset, line and byte column, the latter two counted from one. A
position is carried along while the source is read (`Position.after`), and the position of any
offset can be counted from the start (`Position.ofOffset`).
-/

namespace ReactiveView

/-- A place in a source. -/
structure Position where
  /-- The bytes before it. -/
  offset : Nat
  /-- One more than the line breaks before it. -/
  line : Nat
  /-- One more than the bytes since the last line break. -/
  column : Nat
deriving DecidableEq, Repr, Inhabited

namespace Position

/-- The start of a source. -/
def start : Position := ⟨0, 1, 1⟩

/-- The place behind a character. -/
def next (p : Position) (c : Char) : Position :=
  if c = '\n' then ⟨p.offset + 1, p.line + 1, 1⟩
  else ⟨p.offset + c.utf8Size, p.line, p.column + c.utf8Size⟩

/-- The place behind some characters. -/
def after (p : Position) (cs : List Char) : Position := cs.foldl next p

/-- The place of an offset, counted on from the place `p` of the text `cs`. An offset inside a
character lies on the line of the character. -/
def seek (offset : Nat) (p : Position) : List Char → Position
  | [] => ⟨offset, p.line, p.column + (offset - p.offset)⟩
  | c :: cs =>
    if offset < p.offset + c.utf8Size then ⟨offset, p.line, p.column + (offset - p.offset)⟩
    else seek offset (p.next c) cs

/-- The place of an offset of a source. -/
def ofOffset (source : List Char) (offset : Nat) : Position := seek offset start source

end Position

/-- A stretch of a source, from its start up to its end. -/
structure Span where
  /-- Where it starts. -/
  start : Position
  /-- Where it ends. -/
  stop : Position
deriving DecidableEq, Repr, Inhabited

end ReactiveView

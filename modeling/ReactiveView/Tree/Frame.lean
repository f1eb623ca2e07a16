import ReactiveView.Scope

/-!
# Frames

The bindings of loops and sets. A frame holds the bindings of one instance and may be chained to the
frame of an enclosing one; the nodes built for the instance look names up along the chain before
they look at scopes. Frames are bound again in place, so that all nodes of an instance see the new
values: they are kept in a store, and nodes refer to them by number.
-/

namespace ReactiveView

/-- The number of a frame in its store. -/
abbrev FrameId := Nat

/-- The bindings of one instance. -/
structure Frame where
  /-- The enclosing frame. -/
  parent : Option FrameId
  /-- The bindings of this frame. -/
  bindings : Scope

/-- Frames in the order of their creation; an enclosing frame is older than an enclosed one. -/
structure FrameStore where
  /-- The frames. -/
  frames : Array Frame := #[]

namespace FrameStore

/-- The store without frames. -/
def empty : FrameStore := {}

instance : Inhabited FrameStore := ⟨empty⟩

/-- A frame. -/
def get? (s : FrameStore) (id : FrameId) : Option Frame := s.frames[id]?

/-- Add a frame. -/
def add (s : FrameStore) (parent : Option FrameId) (bindings : Scope) : FrameId × FrameStore :=
  (s.frames.size, ⟨s.frames.push ⟨parent, bindings⟩⟩)

/-- The value bound in a frame itself. -/
def own? (s : FrameStore) (id : FrameId) (name : String) : Option Value :=
  (s.get? id).bind fun f => f.bindings.get? name

/-- The value bound along a chain of at most `length` frames. -/
def lookupIn (s : FrameStore) (name : String) : (length : Nat) → Option FrameId → Option Value
  | 0, _ => none
  | _, none => none
  | length + 1, some id =>
    match s.get? id with
    | none => none
    | some f =>
      match f.bindings.get? name with
      | some v => some v
      | none => lookupIn s name length f.parent

/-- The value bound in a frame or an enclosing one. No chain is longer than the store. -/
def lookup? (s : FrameStore) (frame : Option FrameId) (name : String) : Option Value :=
  s.lookupIn name s.frames.size frame

/-- Whether a frame or an enclosing one binds the name. -/
def binds (s : FrameStore) (frame : Option FrameId) (name : String) : Bool :=
  (s.lookup? frame name).isSome

/-- Bind a name again in place, unless the value is equal to the present one; whether it changed. -/
def rebind (s : FrameStore) (id : FrameId) (name : String) (v : Value) : Bool × FrameStore :=
  match s.get? id with
  | none => (false, s)
  | some f =>
    match f.bindings.write? name v with
    | none => (false, s)
    | some bindings => (true, ⟨s.frames.setIfInBounds id { f with bindings := bindings }⟩)

end FrameStore
end ReactiveView

import ReactiveView.OrderedSet
import ReactiveView.Tree.Arena

/-!
# Shots

A shot collects what happened to the visible nodes since the last one was taken: which were created,
which changed, and which were deleted, each in the order of the first report. A node that was
created since then is not also reported as changed, and one that was both created and deleted since
then is not reported at all.
-/

namespace ReactiveView

/-- Changes since the last shot was taken. -/
structure Shot where
  /-- The new nodes. -/
  created : OrderedSet NodeId := .empty
  /-- The nodes that changed. -/
  updated : OrderedSet NodeId := .empty
  /-- The nodes that are gone. -/
  deleted : OrderedSet NodeId := .empty

namespace Shot

/-- The shot without changes. -/
def empty : Shot := {}

instance : Inhabited Shot := ⟨empty⟩

/-- Whether there is no change. -/
def isEmpty (s : Shot) : Bool := s.created.isEmpty && s.updated.isEmpty && s.deleted.isEmpty

/-- Report a new node. -/
def create (s : Shot) (id : NodeId) : Shot :=
  { s with created := s.created.insert id, updated := s.updated.erase id }

/-- Report a change of a node. -/
def update (s : Shot) (id : NodeId) : Shot :=
  if s.created.contains id || s.deleted.contains id then s
  else { s with updated := s.updated.insert id }

/-- Report the end of a node. -/
def delete (s : Shot) (id : NodeId) : Shot :=
  let s := { s with updated := s.updated.erase id }
  if s.created.contains id then { s with created := s.created.erase id }
  else { s with deleted := s.deleted.insert id }

end Shot
end ReactiveView

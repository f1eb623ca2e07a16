/-!
# Arenas

Rendered nodes live in the slots of an arena and refer to each other by slot and generation. A freed
slot goes to the next generation before it is used again, so an identity is never given twice and a
stale one never finds a newer node; a slot whose generations are used up is retired.
-/

namespace ReactiveView

/-- The identity of a node: its slot, and which of the slot's tenants it is. -/
structure NodeId where
  /-- The slot. -/
  index : UInt32
  /-- The generation of the slot. -/
  generation : UInt32
deriving DecidableEq, Repr, Inhabited

namespace NodeId

/-- The number of a node on the wire. -/
def oid (id : NodeId) : UInt64 := (id.generation.toUInt64 <<< 32) ||| id.index.toUInt64

/-- The identity with a given number. -/
def ofOid (oid : UInt64) : NodeId := ⟨oid.toUInt32, (oid >>> 32).toUInt32⟩

/-- Order by slot, then by generation. -/
def before (a b : NodeId) : Bool :=
  a.index < b.index || (a.index == b.index && a.generation < b.generation)

end NodeId

/-- A place for one node at a time. -/
structure Slot (α : Type) where
  /-- The generation of the present or the next tenant. -/
  generation : UInt32
  /-- The present tenant. -/
  value : Option α

/-- Slots, those that are free, and the number of those that are not. -/
structure Arena (α : Type) where
  /-- The slots in the order of their first use. -/
  slots : Array (Slot α) := #[]
  /-- The free slots, the one freed last in front. -/
  free : List UInt32 := []
  /-- The number of tenants. -/
  size : Nat := 0

namespace Arena

variable {α : Type}

/-- The arena without slots. -/
def empty : Arena α := {}

instance : Inhabited (Arena α) := ⟨empty⟩

/-- Whether there is no tenant. -/
def isEmpty (a : Arena α) : Bool := a.size == 0

/-- The slot of an identity, if it is still in that generation. -/
def slot? (a : Arena α) (id : NodeId) : Option (Slot α) :=
  a.slots[id.index.toNat]?.filter fun s => s.generation == id.generation

/-- The tenant with an identity. -/
def get? (a : Arena α) (id : NodeId) : Option α := (a.slot? id).bind (·.value)

/-- Whether an identity has a tenant. -/
def contains (a : Arena α) (id : NodeId) : Bool := (a.get? id).isSome

/-- Give a slot to a new tenant: the slot freed last, or a new one. -/
def insert (a : Arena α) (v : α) : NodeId × Arena α :=
  match a.free with
  | index :: free =>
    let generation := (a.slots[index.toNat]?.map (·.generation)).getD 0
    (⟨index, generation⟩,
      { slots := a.slots.setIfInBounds index.toNat ⟨generation, some v⟩
        free := free
        size := a.size + 1 })
  | [] =>
    (⟨a.slots.size.toUInt32, 0⟩,
      { a with slots := a.slots.push ⟨0, some v⟩, size := a.size + 1 })

/-- Remove a tenant. Its slot goes to the next generation and becomes free, unless it has had its
last generation. -/
def remove (a : Arena α) (id : NodeId) : Option α × Arena α :=
  match a.get? id with
  | none => (none, a)
  | some v =>
    if id.generation.toNat + 1 < UInt32.size then
      (some v,
        { slots := a.slots.setIfInBounds id.index.toNat ⟨id.generation + 1, none⟩
          free := id.index :: a.free
          size := a.size - 1 })
    else
      (some v,
        { a with
          slots := a.slots.setIfInBounds id.index.toNat ⟨id.generation, none⟩
          size := a.size - 1 })

/-- Change a tenant. -/
def modify (a : Arena α) (id : NodeId) (f : α → α) : Arena α :=
  match a.slot? id with
  | none => a
  | some _ =>
    { a with
      slots := a.slots.modify id.index.toNat fun s => { s with value := s.value.map f } }

/-- The tenants with their identities, in the order of the slots. -/
def toList (a : Arena α) : List (NodeId × α) :=
  a.slots.toList.zipIdx.filterMap fun (s, i) =>
    s.value.map fun v => (⟨i.toUInt32, s.generation⟩, v)

end Arena
end ReactiveView

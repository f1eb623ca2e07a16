import ReactiveView.Proofs.Parsing.Readers

/-!
# The shape of a template tree

What can be said of a template tree that was read from a source, node by node. `Node.WellFormed` is
about what a node holds: its siblings in order and numbered, the parts that its kind asks for, the
names that its expressions read. `Node.Placed` is about where it stands: its stretch of the source
and those of its attributes and of the nodes inside it. A tree has such a property if all its nodes
do (`Node.Everywhere`).

A place is exact if its line and its column are what the line breaks before it make them
(`Position.Exact`); places that are counted along with the characters are (`Position.Of.exact`).
-/

namespace ReactiveView

open Text (Stands byteLength)

/-! ## Places -/

namespace Position

/-- A place of a source: its offset cuts no character, its line is one more than the line breaks
before it, and its column is its distance from the last of them. -/
def Exact (source : List Char) (p : Position) : Prop :=
  ∃ before after, source = before ++ after ∧ p.offset = byteLength before ∧
    p.line = 1 + before.count '\n' ∧
    ('\n' ∉ before → p.column = p.offset + 1) ∧
    ∀ first last, before = first ++ '\n' :: last → '\n' ∉ last →
      p.column = p.offset - byteLength first

theorem column_after_of_not_mem {cs : List Char} (h : '\n' ∉ cs) (p : Position) :
    (p.after cs).column = p.column + byteLength cs := by
  induction cs generalizing p with
  | nil => rfl
  | cons c cs ih =>
    obtain ⟨hc, hcs⟩ := not_or.1 (List.mem_cons.not.1 h)
    have hnext : (p.next c).column = p.column + c.utf8Size := by
      rw [next, if_neg fun h => hc h.symm]
    rw [after_cons, ih hcs, hnext, Text.byteLength_cons, Nat.add_assoc]

/-- Counting from the start gives exact places. -/
theorem Of.exact {source : List Char} {p : Position} (h : Of source p) : p.Exact source := by
  obtain ⟨before, ⟨after, rfl⟩, rfl⟩ := h
  have hoffset := offset_after_start before
  refine ⟨before, after, rfl, hoffset, ?_, fun hbreak => ?_, fun first last hsplit hbreak => ?_⟩
  · rw [(after_eq start before).2]
    rfl
  · rw [column_after_of_not_mem hbreak, hoffset, Nat.add_comm]
    rfl
  · have hcolumn : (start.after before).column = 1 + byteLength last := by
      rw [hsplit, after_append, after_cons, column_after_of_not_mem hbreak, next, if_pos rfl]
    have hlength : byteLength before = byteLength first + (1 + byteLength last) := by
      rw [hsplit, Text.byteLength_append, Text.byteLength_cons]
      rfl
    omega

theorem Exact.offset_le {source : List Char} {p : Position} (h : p.Exact source) :
    p.offset ≤ byteLength source := by
  obtain ⟨before, after, rfl, hoffset, -⟩ := h
  rw [hoffset, Text.byteLength_append]
  exact Nat.le_add_right ..

end Position

namespace Span

/-- A stretch between exact places, of which the second is not before the first. -/
structure Exact (source : List Char) (s : Span) : Prop where
  /-- The start is exact. -/
  start : s.start.Exact source
  /-- The end is exact. -/
  stop : s.stop.Exact source
  /-- The end is not before the start. -/
  start_le : s.start.offset ≤ s.stop.offset
  /-- The end is not behind that of the source. -/
  stop_le : s.stop.offset ≤ byteLength source

/-- A stretch that lies in another one. -/
structure Inside (s outer : Span) : Prop where
  /-- It does not start before the other. -/
  start : outer.start.offset ≤ s.start.offset
  /-- It does not end behind the other. -/
  stop : s.stop.offset ≤ outer.stop.offset

/-- A stretch that starts before another one and does not reach into it. -/
structure Before (s t : Span) : Prop where
  /-- It starts before the other. -/
  start : s.start.offset < t.start.offset
  /-- It ends where the other starts, or before that. -/
  stop : s.stop.offset ≤ t.start.offset

/-- Stretches without a common part. -/
def Apart (s t : Span) : Prop := s.stop.offset ≤ t.start.offset ∨ t.stop.offset ≤ s.start.offset

end Span

/-! ## Names of expressions -/

/-- A name that an expression reads stands in it as an expression. -/
inductive Expr.Reads (x : String) : Expr → Prop where
  | name : Reads x (.name x)
  | member {object : Expr} (field : String) (h : Reads x object) : Reads x (.member object field)
  | object {object : Expr} (key : Expr) (h : Reads x object) : Reads x (.index object key)
  | key {key : Expr} (object : Expr) (h : Reads x key) : Reads x (.index object key)
  | callee {callee : Expr} (args : List Expr) (h : Reads x callee) : Reads x (.call callee args)
  | arg {args : List Expr} {arg : Expr} (callee : Expr) (harg : arg ∈ args) (h : Reads x arg) :
    Reads x (.call callee args)
  | item {items : List Expr} {item : Expr} (hitem : item ∈ items) (h : Reads x item) :
    Reads x (.list items)
  | operand {operand : Expr} (op : UnaryOp) (h : Reads x operand) : Reads x (.unary op operand)
  | left {left : Expr} (op : BinaryOp) (right : Expr) (h : Reads x left) :
    Reads x (.binary op left right)
  | right {right : Expr} (op : BinaryOp) (left : Expr) (h : Reads x right) :
    Reads x (.binary op left right)
  | first {left : Expr} (op : LogicalOp) (right : Expr) (h : Reads x left) :
    Reads x (.logical op left right)
  | second {right : Expr} (op : LogicalOp) (left : Expr) (h : Reads x right) :
    Reads x (.logical op left right)
  | condition {condition : Expr} (yes no : Expr) (h : Reads x condition) :
    Reads x (.cond condition yes no)
  | yes {yes : Expr} (condition no : Expr) (h : Reads x yes) : Reads x (.cond condition yes no)
  | no {no : Expr} (condition yes : Expr) (h : Reads x no) : Reads x (.cond condition yes no)
  | part {parts : List FormatPart} {e : Expr} (hpart : .expr e ∈ parts) (h : Reads x e) :
    Reads x (.format parts)

namespace Expr

mutual

theorem reads_of_mem_names {x : String} : ∀ {e : Expr}, x ∈ e.names → e.Reads x
  | literal _, h => nomatch h
  | name y, h => by
    rw [names, List.mem_singleton] at h
    exact h ▸ .name
  | this, h => nomatch h
  | member _ field, h => .member field (reads_of_mem_names h)
  | index object key, h => by
    rw [names, List.mem_append] at h
    exact h.elim (fun h => .object key (reads_of_mem_names h)) fun h =>
      .key object (reads_of_mem_names h)
  | call callee args, h => by
    rw [names, List.mem_append] at h
    refine h.elim (fun h => .callee args (reads_of_mem_names h)) fun h => ?_
    obtain ⟨arg, harg, h⟩ := reads_of_mem_namesOfList h
    exact .arg callee harg h
  | list items, h => by
    have h : x ∈ namesOfList items := h
    obtain ⟨item, hitem, h⟩ := reads_of_mem_namesOfList h
    exact .item hitem h
  | unary op _, h => .operand op (reads_of_mem_names h)
  | binary op left right, h => by
    rw [names, List.mem_append] at h
    exact h.elim (fun h => .left op right (reads_of_mem_names h)) fun h =>
      .right op left (reads_of_mem_names h)
  | logical op left right, h => by
    rw [names, List.mem_append] at h
    exact h.elim (fun h => .first op right (reads_of_mem_names h)) fun h =>
      .second op left (reads_of_mem_names h)
  | cond condition yes no, h => by
    rw [names, List.mem_append, List.mem_append] at h
    rcases h with (h | h) | h
    · exact .condition yes no (reads_of_mem_names h)
    · exact .yes condition no (reads_of_mem_names h)
    · exact .no condition yes (reads_of_mem_names h)
  | format parts, h => by
    have h : x ∈ namesOfParts parts := h
    obtain ⟨e, he, h⟩ := reads_of_mem_namesOfParts h
    exact .part he h

theorem reads_of_mem_namesOfList {x : String} :
    ∀ {es : List Expr}, x ∈ namesOfList es → ∃ e ∈ es, e.Reads x
  | [], h => nomatch h
  | e :: es, h => by
    rw [namesOfList, List.mem_append] at h
    rcases h with h | h
    · exact ⟨e, List.mem_cons_self, reads_of_mem_names h⟩
    · obtain ⟨e', he', h⟩ := reads_of_mem_namesOfList h
      exact ⟨e', List.mem_cons_of_mem e he', h⟩

theorem reads_of_mem_namesOfParts {x : String} :
    ∀ {parts : List FormatPart}, x ∈ namesOfParts parts → ∃ e, .expr e ∈ parts ∧ e.Reads x
  | [], h => nomatch h
  | .text _ :: parts, h => by
    have h : x ∈ namesOfParts parts := h
    obtain ⟨e, he, h⟩ := reads_of_mem_namesOfParts h
    exact ⟨e, List.mem_cons_of_mem _ he, h⟩
  | .expr e :: parts, h => by
    rw [namesOfParts, List.mem_append] at h
    rcases h with h | h
    · exact ⟨e, List.mem_cons_self, reads_of_mem_names h⟩
    · obtain ⟨e', he', h⟩ := reads_of_mem_namesOfParts h
      exact ⟨e', List.mem_cons_of_mem _ he', h⟩

end

theorem mem_namesOfList {x : String} {e : Expr} {es : List Expr} (he : e ∈ es)
    (h : x ∈ e.names) : x ∈ namesOfList es := by
  induction es with
  | nil => cases he
  | cons e' es ih =>
    rw [namesOfList, List.mem_append]
    rcases List.mem_cons.1 he with rfl | he
    · exact .inl h
    · exact .inr (ih he)

theorem mem_namesOfParts {x : String} {e : Expr} {parts : List FormatPart}
    (he : .expr e ∈ parts) (h : x ∈ e.names) : x ∈ namesOfParts parts := by
  induction parts with
  | nil => cases he
  | cons part parts ih =>
    rcases List.mem_cons.1 he with rfl | hrest
    · rw [namesOfParts]
      exact List.mem_append_left _ h
    · cases part with
      | text => exact ih hrest
      | expr => exact List.mem_append_right _ (ih hrest)

theorem Reads.mem_names {x : String} {e : Expr} (h : e.Reads x) : x ∈ e.names := by
  induction h with
  | name => exact List.mem_singleton_self x
  | member _ _ ih | operand _ _ ih => exact ih
  | object _ _ ih | callee _ _ ih | left _ _ _ ih | first _ _ _ ih =>
    exact List.mem_append_left _ ih
  | key _ _ ih | right _ _ _ ih | second _ _ _ ih => exact List.mem_append_right _ ih
  | arg _ harg _ ih => exact List.mem_append_right _ (mem_namesOfList harg ih)
  | item hitem _ ih => exact mem_namesOfList hitem ih
  | condition _ _ _ ih => exact List.mem_append_left _ (List.mem_append_left _ ih)
  | yes _ _ _ ih => exact List.mem_append_left _ (List.mem_append_right _ ih)
  | no _ _ _ ih => exact List.mem_append_right _ ih
  | part hpart _ ih => exact mem_namesOfParts hpart ih

end Expr

/-- A list of the names that an expression reads: each of them once, and no other. -/
structure Expr.Lists (e : Expr) (names : List String) : Prop where
  /-- Each stands once. -/
  nodup : names.Nodup
  /-- They are the names that are read. -/
  mem_iff : ∀ x, x ∈ names ↔ e.Reads x

theorem Expr.lists_freeVars (e : Expr) : e.Lists e.freeVars where
  nodup := OrderedSet.nodup_insertAll List.nodup_nil _
  mem_iff x := by
    rw [freeVars, OrderedSet.ofList, OrderedSet.mem_insertAll]
    exact ⟨fun h => reads_of_mem_names (h.resolve_left nofun), fun h => .inr h.mem_names⟩

/-- The names that are noted with an expression are those that it reads. -/
structure DynamicExpr.Faithful (e : DynamicExpr) : Prop where
  /-- They are computed from the expression. -/
  freeVars : e.freeVars = e.expr.freeVars
  /-- They are the names that it reads. -/
  lists : e.expr.Lists e.freeVars

theorem DynamicExpr.faithful_of (e : Expr) (reactive : Bool) (source : String) :
    (DynamicExpr.of e reactive source).Faithful := ⟨rfl, e.lists_freeVars⟩

/-! ## Nodes -/

namespace Node

/-- The lists of siblings directly inside a node: its children, or those of each branch, and the
empty case. -/
def siblings : Node → List (List Node)
  | choice _ _ branches => branches.map (·.2)
  | loop _ _ _ _ cs empty => cs :: empty.toList
  | n => [n.children]

theorem inner_eq (n : Node) : n.inner = n.siblings.flatten := by
  cases n with
  | choice h reactive branches => exact List.flatMap_def ..
  | loop h var iterable identity cs empty => cases empty <;> simp [inner, siblings]
  | _ => exact (List.append_nil _).symm

/-- The expressions that a node has besides those of its attributes. -/
def ownExpressions : Node → List DynamicExpr
  | component _ (.dynamic e) _ => [e]
  | choice _ _ branches => branches.filterMap (·.1)
  | loop _ _ iterable identity _ _ => iterable :: identity.toList
  | binding _ _ value _ => [value]
  | script _ body _ => [body]
  | dynamicText _ e => [e]
  | _ => []

/-- The expressions of a node. -/
def expressions (n : Node) : List DynamicExpr :=
  n.attributes.filterMap (·.value.dynamic?) ++ n.ownExpressions

/-- Whether nodes like this one never have anything inside: void elements and raw blocks. -/
def isChildless : Node → Bool
  | element h _ => Tag.isVoid h.tag
  | code .. | style .. | script .. => true
  | _ => false

/-- A node that stands in the source before another one. -/
abbrev Precedes (m n : Node) : Prop := m.header.span.Before n.header.span

/-- Siblings as they belong into a tree: numbered, the code blocks first, and apart from that in the
order of the source. -/
structure Arranged (nodes : List Node) : Prop where
  /-- Each node has its place noted. -/
  index : ∀ (i : Nat) (h : i < nodes.length), (nodes[i]).header.index = i
  /-- Code blocks come first. -/
  codeFirst : nodes = nodes.filter isCode ++ nodes.filter (!·.isCode)
  /-- Code blocks keep their order. -/
  codes : (nodes.filter isCode).Pairwise Precedes
  /-- The other nodes keep theirs. -/
  others : (nodes.filter (!·.isCode)).Pairwise Precedes

/-- What the kind of a node asks of its parts. -/
def Shaped : Node → Prop
  | choice _ reactive branches =>
    branches ≠ [] ∧ (∀ b ∈ branches.dropLast, b.1.isSome) ∧
      ∀ b ∈ branches, ∀ e ∈ b.1, e.reactive = reactive
  | loop _ var _ identity _ _ => isIdentifier var = true ∧ ∀ e ∈ identity, e.reactive = false
  | binding _ name _ _ => isIdentifier name = true
  | _ => True

/-- A well-formed node. -/
structure WellFormed (n : Node) : Prop where
  /-- No root is inside. -/
  noRoot : ∀ m ∈ n.inner, m.isRoot = false
  /-- All lists of siblings are in order. -/
  arranged : ∀ nodes ∈ n.siblings, Arranged nodes
  /-- Void elements and raw blocks have nothing inside. -/
  childless : n.isChildless = true → n.inner = []
  /-- Its parts are those that its kind asks for. -/
  shaped : n.Shaped
  /-- What an attribute does follows from its name. -/
  attributes : ∀ a ∈ n.attributes, a.role = .ofName a.name
  /-- The names that its expressions read are noted. -/
  expressions : ∀ e ∈ n.expressions, e.Faithful

/-- A node in its place: where it stands itself, its attributes, and the nodes inside it. -/
structure Placed (source : List Char) (n : Node) : Prop where
  /-- Its stretch is one of the source. -/
  span : n.header.span.Exact source
  /-- So are those of its attributes. -/
  attributes : ∀ a ∈ n.attributes, a.span.Exact source
  /-- They lie in its own. -/
  attributesInside : ∀ a ∈ n.attributes, a.span.Inside n.header.span
  /-- The stretches of the nodes inside lie in its own. -/
  inside : ∀ m ∈ n.inner, m.header.span.Inside n.header.span
  /-- They have no common part. -/
  apart : n.inner.Pairwise fun m m' => m.header.span.Apart m'.header.span

/-- A text as it stands in the source. -/
def Verbatim (source : List Char) : Node → Prop
  | text h s => Stands source h.span.start.offset s.toList ∧
    h.span.stop.offset = h.span.start.offset + byteLength s.toList
  | _ => True

/-- A property of a node and of all nodes inside it. -/
inductive Everywhere (P : Node → Prop) : Node → Prop where
  /-- It is one of the node and of what is inside. -/
  | intro {n : Node} (here : P n) (inner : ∀ m ∈ n.inner, Everywhere P m) : Everywhere P n

theorem Everywhere.mono {P Q : Node → Prop} (h : ∀ n, P n → Q n) {n : Node}
    (hn : n.Everywhere P) : n.Everywhere Q := by
  induction hn with
  | intro here _ ih => exact .intro (h _ here) ih

end Node
end ReactiveView

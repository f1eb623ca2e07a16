import ReactiveView.Proofs.Parsing.Spans

/-!
# Nodes one behind the other

What a reader has read lies between the offset where it stood and the offset where it stands then: a
node with all that is inside it (`Node.Between`), siblings one behind the other (`Node.Row`), and
the contents of a node (`Node.Contents`), which have been arranged: code blocks were moved to the
front and places noted (`Node.Row.contents`). From its header and its contents a node is made that
is well formed and in its place (`Node.between_of_parts`).
-/

namespace ReactiveView

open Text (Stands byteLength)

/-- An attribute that was read between two offsets of a source. -/
structure Attribute.Between (source : List Char) (low high : Nat) (a : Attribute) : Prop where
  /-- What it does follows from its name. -/
  role : a.role = .ofName a.name
  /-- Its stretch is one of the source. -/
  span : a.span.Exact source
  /-- It does not start before the first offset. -/
  start : low ≤ a.span.start.offset
  /-- It does not end behind the second. -/
  stop : a.span.stop.offset ≤ high
  /-- The names that its expression reads are noted. -/
  faithful : ∀ e ∈ a.value.dynamic?, e.Faithful

theorem Attribute.Between.mono {source : List Char} {low low' high high' : Nat} {a : Attribute}
    (h : a.Between source low high) (hlow : low' ≤ low) (hhigh : high ≤ high') :
    a.Between source low' high' :=
  ⟨h.role, h.span, Nat.le_trans hlow h.start, Nat.le_trans h.stop hhigh, h.faithful⟩

namespace Node

variable {ctx : TemplateReader.Context} {top : Bool} {low low' mid high high' : Nat} {n : Node}
  {nodes : List Node} {groups others : List (List Node)}

/-! ## Nodes between two offsets -/

/-- A code block has the statements of its content, which lies in its stretch, and the line on which
the content begins. -/
def Coded (source : List Char) : Node → Prop
  | code h content body line => parseStatements content = .ok body ∧
    ∃ before after, source = before ++ (content.toList ++ after) ∧
      h.span.start.offset ≤ byteLength before ∧
      byteLength before + byteLength content.toList ≤ h.span.stop.offset ∧
      line = Text.lineCount before
  | _ => True

/-- What is true of every node that is read. -/
structure Good (ctx : TemplateReader.Context) (n : Node) : Prop where
  /-- It is well formed. -/
  wellFormed : n.WellFormed
  /-- It is in its place. -/
  placed : n.Placed ctx.source
  /-- A text stands in the source as it is, if blanks are kept. -/
  verbatim : ctx.options.trimText = false → n.Verbatim ctx.source
  /-- A code block has the statements and the line of its content. -/
  coded : n.Coded ctx.source

/-- A node that was read between two offsets. It may be a root at the top only. -/
structure Between (ctx : TemplateReader.Context) (top : Bool) (low high : Nat) (n : Node) :
    Prop where
  /-- It does not start before the first offset. -/
  start : low ≤ n.header.span.start.offset
  /-- It is not empty. -/
  nonempty : n.header.span.start.offset < n.header.span.stop.offset
  /-- It does not end behind the second. -/
  stop : n.header.span.stop.offset ≤ high
  /-- A root stands at the top. -/
  root : n.isRoot = true → top = true
  /-- All is well with it and with what is inside. -/
  good : n.Everywhere (Good ctx)

theorem Between.mono (h : n.Between ctx top low high) (hlow : low' ≤ low) (hhigh : high ≤ high') :
    n.Between ctx top low' high' :=
  ⟨Nat.le_trans hlow h.start, h.nonempty, Nat.le_trans h.stop hhigh, h.root, h.good⟩

/-- Siblings that were read one behind the other between two offsets. -/
structure Row (ctx : TemplateReader.Context) (top : Bool) (low high : Nat) (nodes : List Node) :
    Prop where
  /-- Each was read there. -/
  between : ∀ n ∈ nodes, n.Between ctx top low high
  /-- They stand one behind the other. -/
  ordered : nodes.Pairwise Precedes

theorem row_nil : Row ctx top low high [] := ⟨nofun, .nil⟩

theorem Row.cons (h : Row ctx top mid high nodes) (hn : n.Between ctx top low mid)
    (hhigh : mid ≤ high) : Row ctx top low high (n :: nodes) where
  between := by
    have hlow : low ≤ mid := Nat.le_trans hn.start (Nat.le_trans (Nat.le_of_lt hn.nonempty) hn.stop)
    exact List.forall_mem_cons.2
      ⟨hn.mono (Nat.le_refl _) hhigh, fun m hm => (h.between m hm).mono hlow (Nat.le_refl _)⟩
  ordered := List.pairwise_cons.2 ⟨fun m hm => by
    have hstart := Nat.le_trans hn.stop (h.between m hm).start
    exact ⟨Nat.lt_of_lt_of_le hn.nonempty hstart, hstart⟩, h.ordered⟩

/-- Siblings at the top of which none is a root could stand anywhere. -/
theorem Row.below (h : Row ctx top low high nodes) (hroot : ∀ n ∈ nodes, n.isRoot = false) :
    Row ctx false low high nodes where
  between n hn := by
    obtain ⟨hstart, hnonempty, hstop, -, hgood⟩ := h.between n hn
    exact ⟨hstart, hnonempty, hstop, fun hn' => (nomatch (hroot n hn).symm.trans hn'), hgood⟩
  ordered := h.ordered

/-! ## Contents -/

/-- What is inside a node, in one or more lists of siblings, between two offsets. -/
structure Contents (ctx : TemplateReader.Context) (low high : Nat) (groups : List (List Node)) :
    Prop where
  /-- Each list is in order. -/
  arranged : ∀ nodes ∈ groups, Arranged nodes
  /-- Each node was read there. -/
  between : ∀ n ∈ groups.flatten, n.Between ctx false low high
  /-- They have no common part. -/
  apart : groups.flatten.Pairwise fun m n => m.header.span.Apart n.header.span

theorem arranged_nil : Arranged [] := ⟨nofun, rfl, .nil, .nil⟩

theorem contents_singleton_nil : Contents ctx low high [[]] :=
  ⟨by rintro _ (_ | ⟨_, ⟨⟩⟩); exact arranged_nil, nofun, .nil⟩

theorem Contents.mono (h : Contents ctx low high groups) (hlow : low' ≤ low)
    (hhigh : high ≤ high') : Contents ctx low' high' groups :=
  ⟨h.arranged, fun n hn => (h.between n hn).mono hlow hhigh, h.apart⟩

/-- Contents that stand behind others have no part in common with them. -/
theorem Contents.append (h : Contents ctx low mid groups) (h' : Contents ctx mid high others)
    (hlow : low ≤ mid) (hhigh : mid ≤ high) : Contents ctx low high (groups ++ others) where
  arranged := List.forall_mem_append.2 ⟨h.arranged, h'.arranged⟩
  between := by
    rw [List.flatten_append]
    exact List.forall_mem_append.2 ⟨fun n hn => (h.between n hn).mono (Nat.le_refl _) hhigh,
      fun n hn => (h'.between n hn).mono hlow (Nat.le_refl _)⟩
  apart := by
    rw [List.flatten_append, List.pairwise_append]
    exact ⟨h.apart, h'.apart, fun m hm n hn =>
      .inl (Nat.le_trans (h.between m hm).stop (h'.between n hn).start)⟩

/-! ## Arranging -/

@[simp] theorem header_withIndex (i : Nat) (n : Node) :
    (n.withIndex i).header = { n.header with index := i } := by cases n <;> rfl

@[simp] theorem isCode_withIndex (i : Nat) (n : Node) : (n.withIndex i).isCode = n.isCode := by
  cases n <;> rfl

@[simp] theorem isRoot_withIndex (i : Nat) (n : Node) : (n.withIndex i).isRoot = n.isRoot := by
  cases n <;> rfl

@[simp] theorem expressions_withIndex (i : Nat) (n : Node) :
    (n.withIndex i).expressions = n.expressions := by
  cases n with
  | component _ name => cases name <;> rfl
  | _ => rfl

theorem Good.withIndex (h : n.Good ctx) (i : Nat) : (n.withIndex i).Good ctx := by
  obtain ⟨⟨h₁, h₂, h₃, h₄, h₅, h₆⟩, ⟨h₇, h₈, h₉, h₁₀, h₁₁⟩, h₁₂, h₁₃⟩ := h
  rw [← expressions_withIndex i] at h₆
  cases n <;> exact ⟨⟨h₁, h₂, h₃, h₄, h₅, h₆⟩, ⟨h₇, h₈, h₉, h₁₀, h₁₁⟩, h₁₂, h₁₃⟩

theorem Between.withIndex (h : n.Between ctx top low high) (i : Nat) :
    (n.withIndex i).Between ctx top low high := by
  obtain ⟨hstart, hnonempty, hstop, hroot, ⟨hhere, hinner⟩⟩ := h
  refine ⟨?_, ?_, ?_, ?_, .intro (hhere.withIndex i) ?_⟩
  · rwa [header_withIndex]
  · rwa [header_withIndex]
  · rwa [header_withIndex]
  · rwa [isRoot_withIndex]
  · cases n <;> exact hinner

/-- Nodes with their places noted, counted from `first`. -/
def numberFrom (first : Nat) (nodes : List Node) : List Node :=
  nodes.mapIdx fun i n => n.withIndex (i + first)

theorem arrange_eq (nodes : List Node) : arrange nodes =
    numberFrom 0 (nodes.filter isCode) ++
      numberFrom (nodes.filter isCode).length (nodes.filter (!·.isCode)) := List.mapIdx_append

/-- Noting the places of nodes does not move them. -/
theorem spans_numberFrom (first : Nat) (nodes : List Node) :
    (numberFrom first nodes).map (·.header.span) = nodes.map (·.header.span) := by
  refine List.ext_getElem (by simp [numberFrom]) fun i h₁ h₂ => ?_
  simp [numberFrom]

theorem pairwise_numberFrom {R : Span → Span → Prop} (first : Nat)
    (h : nodes.Pairwise fun m n => R m.header.span n.header.span) :
    (numberFrom first nodes).Pairwise fun m n => R m.header.span n.header.span := by
  have hmap (l : List Node) : (l.map (·.header.span)).Pairwise R ↔
      l.Pairwise fun m n => R m.header.span n.header.span := List.pairwise_map
  rw [← hmap, spans_numberFrom, hmap]
  exact h

theorem filter_numberFrom {p : Node → Bool} (hp : ∀ i n, p (n.withIndex i) = p n) (first : Nat)
    {b : Bool} (h : ∀ n ∈ nodes, p n = b) :
    (numberFrom first nodes).filter p = if b then numberFrom first nodes else [] := by
  have hall : ∀ m ∈ numberFrom first nodes, p m = b := by
    intro m hm
    obtain ⟨i, hi, rfl⟩ := List.mem_mapIdx.1 hm
    rw [hp]
    exact h _ (List.getElem_mem hi)
  cases b with
  | true => exact List.filter_eq_self.2 hall
  | false => exact List.filter_eq_nil_iff.2 fun m hm => by simp [hall m hm]

theorem filter_isCode_arrange (nodes : List Node) :
    (arrange nodes).filter isCode = numberFrom 0 (nodes.filter isCode) ∧
      (arrange nodes).filter (!·.isCode) =
        numberFrom (nodes.filter isCode).length (nodes.filter (!·.isCode)) := by
  have hcode : ∀ n ∈ nodes.filter isCode, n.isCode = true := fun n hn => (List.mem_filter.1 hn).2
  have hother : ∀ n ∈ nodes.filter (!·.isCode), n.isCode = false := fun n hn =>
    (Bool.not_eq_true' _).mp (List.mem_filter.1 hn).2
  have hnot : ∀ i n, (!(withIndex i n).isCode) = !n.isCode := by simp
  rw [arrange_eq, List.filter_append, List.filter_append]
  constructor
  · rw [filter_numberFrom isCode_withIndex 0 hcode, filter_numberFrom isCode_withIndex _ hother]
    exact List.append_nil _
  · rw [filter_numberFrom hnot 0 (b := false) fun n hn => by rw [hcode n hn]; rfl,
      filter_numberFrom hnot _ (b := true) fun n hn => by rw [hother n hn]; rfl]
    exact List.nil_append _

/-- Arranging puts siblings in order, and they keep their places in the source. -/
theorem Row.contents (h : Row ctx false low high nodes) :
    Contents ctx low high [arrange nodes] := by
  obtain ⟨hcodes, hothers⟩ := filter_isCode_arrange nodes
  have hbetween : ∀ n ∈ arrange nodes, n.Between ctx false low high := by
    intro n hn
    obtain ⟨i, hi, rfl⟩ := List.mem_mapIdx.1 hn
    refine (h.between _ ?_).withIndex i
    have hmem := List.getElem_mem hi
    rw [List.mem_append] at hmem
    exact hmem.elim (fun h => (List.mem_filter.1 h).1) fun h => (List.mem_filter.1 h).1
  have harranged : Arranged (arrange nodes) := by
    refine ⟨fun i hi => by simp [arrange], ?_, ?_, ?_⟩
    · rw [hcodes, hothers]
      exact arrange_eq nodes
    · rw [hcodes]
      exact pairwise_numberFrom 0 (h.ordered.filter _)
    · rw [hothers]
      exact pairwise_numberFrom _ (h.ordered.filter _)
  -- moving code blocks to the front changes the order, which does not matter here
  have hapart : (arrange nodes).Pairwise fun m n => m.header.span.Apart n.header.span := by
    refine pairwise_numberFrom 0 ((List.Perm.pairwise_iff Or.symm
      (List.filter_append_perm isCode nodes)).2 ?_)
    exact h.ordered.imp fun h => .inl h.stop
  refine ⟨?_, ?_, ?_⟩
  · rintro _ (_ | ⟨_, ⟨⟩⟩)
    exact harranged
  · rwa [List.flatten_singleton]
  · rwa [List.flatten_singleton]

/-! ## Making nodes -/

/-- All is well with a node whose stretch ends where the reader stands, if it is with its attributes
and its contents. -/
theorem everywhere_good_of_parts {start : Position} {c : TemplateReader.Cursor}
    (hstart : start.Of ctx.source) (hc : c.At ctx.source)
    (hread : start.offset ≤ c.position.offset) (hspan : n.header.span = ⟨start, c.position⟩)
    (hattributes : ∀ a ∈ n.attributes, a.Between ctx.source start.offset c.position.offset)
    (hcontents : Contents ctx start.offset c.position.offset n.siblings)
    (hchildless : n.isChildless = true → n.inner = [])
    (hshaped : n.Shaped) (hown : ∀ e ∈ n.ownExpressions, e.Faithful)
    (hverbatim : ctx.options.trimText = false → n.Verbatim ctx.source)
    (hcoded : n.Coded ctx.source) : n.Everywhere (Good ctx) := by
  obtain ⟨harranged, hbetween, hapart⟩ := hcontents
  rw [← inner_eq] at hbetween hapart
  have hexpressions : ∀ e ∈ n.expressions, e.Faithful := by
    refine List.forall_mem_append.2 ⟨fun e he => ?_, hown⟩
    obtain ⟨a, ha, he⟩ := List.mem_filterMap.1 he
    exact (hattributes a ha).faithful e he
  have hexact : n.header.span.Exact ctx.source := by
    rw [hspan]
    exact ⟨hstart.exact, hc.position.exact, hread, hc.position.exact.offset_le⟩
  have hinside : ∀ m ∈ n.inner, m.header.span.Inside n.header.span := by
    rw [hspan]
    exact fun m hm => ⟨(hbetween m hm).start, (hbetween m hm).stop⟩
  have hattributesInside : ∀ a ∈ n.attributes, a.span.Inside n.header.span := by
    rw [hspan]
    exact fun a ha => ⟨(hattributes a ha).start, (hattributes a ha).stop⟩
  refine .intro ⟨?_, ?_, hverbatim, hcoded⟩ fun m hm => (hbetween m hm).good
  · exact ⟨fun m hm => Bool.eq_false_iff.2 fun h => (nomatch (hbetween m hm).root h), harranged,
      hchildless, hshaped, fun a ha => (hattributes a ha).role, hexpressions⟩
  · exact ⟨hexact, fun a ha => (hattributes a ha).span, hattributesInside, hinside, hapart⟩

/-- A node that was read up to where the reader stands is made of its header and its contents. -/
theorem between_of_parts {start : Position} {c : TemplateReader.Cursor}
    (hstart : start.Of ctx.source) (hc : c.At ctx.source)
    (hread : start.offset < c.position.offset) (hspan : n.header.span = ⟨start, c.position⟩)
    (hattributes : ∀ a ∈ n.attributes, a.Between ctx.source start.offset c.position.offset)
    (hcontents : Contents ctx start.offset c.position.offset n.siblings)
    (hroot : n.isRoot = true → top = true) (hchildless : n.isChildless = true → n.inner = [])
    (hshaped : n.Shaped) (hown : ∀ e ∈ n.ownExpressions, e.Faithful)
    (hverbatim : ctx.options.trimText = false → n.Verbatim ctx.source)
    (hcoded : n.Coded ctx.source) :
    n.Between ctx top start.offset c.position.offset := by
  refine ⟨?_, ?_, ?_, hroot, everywhere_good_of_parts hstart hc (Nat.le_of_lt hread) hspan
    hattributes hcontents hchildless hshaped hown hverbatim hcoded⟩
  · rw [hspan]
  · rwa [hspan]
  · rw [hspan]

end Node
end ReactiveView

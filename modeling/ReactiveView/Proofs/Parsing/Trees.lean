import ReactiveView.Proofs.Parsing.Rows
import ReactiveView.Proofs.Parsing.Templates

/-!
# Template trees are well formed and in place

Every tree that is read has a root at the top and nowhere else, and all its nodes are well formed
(`parseTemplate_wellFormed`) and in their places (`parseTemplate_placed`).

A reader that does not fail moves forward (`TemplateReader.Gives`), and what it gives lies between
the offsets where it stood before and afterwards. Each reader has one lemma that says so, whatever
reads the siblings inside, and `TemplateReader.gives_nodesAt` ties them together by induction on the
steps.
-/

namespace ReactiveView

open Text (Stands byteLength)
open Node (Contents Row)

namespace TemplateReader

variable {α β : Type} {ctx : Context} {c : Cursor} {start : Position} {P : α → Cursor → Prop}
  {Q : β → Cursor → Prop} {s : TemplateReader Siblings} {top : Bool}

/-! ## Readers that move forward -/

/-- A cursor with less left stands behind one with more left. -/
theorem Cursor.At.offset_le {source : List Char} {c c' : Cursor} {k : Nat} (hc : c.At source)
    (hc' : c'.At source) (h : c'.rest.length + k ≤ c.rest.length) :
    c.position.offset + k ≤ c'.position.offset := by
  obtain ⟨before, rfl, hposition⟩ := hc
  obtain ⟨before', hsource, hposition'⟩ := hc'
  rw [hposition, hposition', Position.offset_after_start, Position.offset_after_start]
  have hlength := congrArg List.length hsource
  simp only [List.length_append] at hlength
  obtain ⟨between, rfl⟩ : before <+: before' :=
    List.prefix_of_prefix_length_le (List.prefix_append before c.rest)
      (hsource ▸ List.prefix_append before' c'.rest) (by omega)
  have hbetween : between.length ≤ byteLength between := by
    clear * -
    induction between with
    | nil => exact Nat.le_refl _
    | cons c cs ih =>
      have := Char.utf8Size_pos c
      rw [List.length_cons, Text.byteLength_cons]
      omega
  rw [Text.byteLength_append]
  rw [List.length_append] at hlength
  omega

/-- What a reader gives at a place of its source, and where it then stands, if it does not fail. -/
def Gives (ctx : Context) (c : Cursor) (P : α → Cursor → Prop) (m : TemplateReader α) : Prop :=
  ∀ a c', m ctx c = .ok (a, c') →
    c'.At ctx.source ∧ c.position.offset ≤ c'.position.offset ∧ P a c'

theorem Lands.gives {m : TemplateReader α} {k : Nat} (hc : c.At ctx.source)
    (h : Reaches ctx.source k c P (m ctx c)) :
    Gives ctx c (fun a c' => c.position.offset + k ≤ c'.position.offset ∧ P a c') m := by
  intro a c' hm
  obtain ⟨hc', hlength, ha⟩ := h.done hm
  have hle := hc.offset_le hc' hlength
  exact ⟨hc', Nat.le_trans (Nat.le_add_right ..) hle, hle, ha⟩

theorem gives_pure {a : α} (hc : c.At ctx.source) (ha : P a c) : Gives ctx c P (pure a) := by
  intro a' c' h
  obtain ⟨rfl, rfl⟩ := Prod.mk.inj (Except.ok.inj h)
  exact ⟨hc, Nat.le_refl _, ha⟩

theorem Gives.bind {m : TemplateReader α} {f : α → TemplateReader β} (h : Gives ctx c P m)
    (hf : ∀ a c', c'.At ctx.source → c.position.offset ≤ c'.position.offset → P a c' →
      Gives ctx c' Q (f a)) : Gives ctx c Q (m >>= f) := by
  intro b c'' hmf
  have hbind : (m >>= f) ctx c = (m ctx c).bind fun (a, c') => f a ctx c' := rfl
  rw [hbind] at hmf
  cases hm : m ctx c with
  | error e => rw [hm] at hmf; cases hmf
  | ok read =>
    obtain ⟨a, c'⟩ := read
    rw [hm] at hmf
    obtain ⟨hc', hle, ha⟩ := h a c' hm
    obtain ⟨hc'', hle', hb⟩ := hf a c' hc' hle ha b c'' hmf
    exact ⟨hc'', Nat.le_trans hle hle', hb⟩

theorem Gives.mono {m : TemplateReader α} {P' : α → Cursor → Prop} (h : Gives ctx c P m)
    (hP : ∀ a c', c.position.offset ≤ c'.position.offset → P a c' → P' a c') :
    Gives ctx c P' m := by
  intro a c' hm
  obtain ⟨hc', hle, ha⟩ := h a c' hm
  exact ⟨hc', hle, hP a c' hle ha⟩

/-- A failure gives nothing. -/
theorem gives_fail {fault : TemplateFault} {p : Position} {detail : Option String} :
    Gives ctx c P (fail fault p detail) := nofun

theorem gives_fail_bind {fault : TemplateFault} {p : Position} {detail : Option String}
    {f : α → TemplateReader β} : Gives ctx c Q (fail fault p detail >>= f) := nofun

theorem gives_here {f : Position → TemplateReader α} (h : Gives ctx c P (f c.position)) :
    Gives ctx c P (here >>= f) := h

theorem gives_rest {f : List Char → TemplateReader α} (h : Gives ctx c P (f c.rest)) :
    Gives ctx c P (rest >>= f) := h

theorem gives_read {f : Context → TemplateReader α} (h : Gives ctx c P (f ctx)) :
    Gives ctx c P (read >>= f) := h

theorem gives_spanFrom {f : Span → TemplateReader α} (h : Gives ctx c P (f ⟨start, c.position⟩)) :
    Gives ctx c P (spanFrom start >>= f) := h

/-- An expression leaves the reader where it stands. -/
theorem gives_expression (part : List Char) (offset : Nat) (hc : c.At ctx.source) :
    Gives ctx c (fun _ c' => c' = c) (expression part offset) := by
  unfold expression
  split
  · exact gives_pure hc rfl
  · exact nofun

/-! ## Attributes -/

theorem gives_formatParts (offset : Nat) (isExpr : Bool) (segments : List (List Char))
    (hc : c.At ctx.source) : Gives ctx c (fun _ _ => True) (formatParts offset isExpr segments) := by
  induction segments generalizing isExpr c with
  | nil => exact gives_pure hc trivial
  | cons segment segments ih =>
    unfold formatParts
    split
    · dsimp only
      refine (gives_expression _ offset hc).bind fun _ _ hc _ _ => ?_
      exact (ih false hc).bind fun _ _ hc _ _ => gives_pure hc trivial
    · refine (ih true hc).bind fun _ _ hc _ _ => ?_
      dsimp only
      split <;> exact gives_pure hc trivial

/-- The names that an expression of a value reads are noted. -/
theorem gives_attributeValue (raw : List Char) (offset : Nat) (hc : c.At ctx.source) :
    Gives ctx c (fun v _ => ∀ e ∈ v.dynamic?, e.Faithful) (attributeValue raw offset) := by
  have hdynamic (e : Expr) (reactive : Bool) (source : String) :
      ∀ e' ∈ (AttrValue.dynamic (.of e reactive source)).dynamic?, e'.Faithful := by
    rintro _ ⟨⟩
    exact DynamicExpr.faithful_of ..
  unfold attributeValue
  dsimp only
  split
  · exact (gives_expression _ offset hc).bind fun e _ hc _ _ => gives_pure hc (hdynamic _ _ _)
  · split
    · exact (gives_formatParts offset _ _ hc).bind fun _ _ hc _ _ => gives_pure hc (hdynamic _ _ _)
    · exact gives_pure hc nofun

theorem gives_attributeOperand (name : String) (hc : c.At ctx.source) :
    Gives ctx c (fun v _ => ∀ e ∈ v.dynamic?, e.Faithful) (attributeOperand name start) := by
  refine ((lands_eat "=" hc).gives hc).bind fun eaten c hc _ _ => ?_
  split
  · refine ((lands_skipBlanks hc).gives hc).bind fun _ c hc _ _ => ?_
    refine gives_rest ?_
    split
    · exact gives_fail
    · split
      · refine ((lands_eat _ hc).gives hc).bind fun _ c hc _ _ => ?_
        refine gives_here (((lands_takeThrough? _ hc).gives hc).bind fun raw c hc _ _ => ?_)
        split
        · exact gives_attributeValue _ _ hc
        · exact gives_fail
      · exact gives_fail
  · exact gives_pure hc nofun

/-- Attributes lie behind the place where their reader stood. -/
theorem gives_attributesAt (steps : Nat) (hc : c.At ctx.source) :
    Gives ctx c (fun attributes c' => ∀ a ∈ attributes,
      a.Between ctx.source c.position.offset c'.position.offset) (attributesAt steps) := by
  induction steps generalizing c with
  | zero => exact gives_here gives_fail
  | succ steps ih =>
    refine ((lands_skipBlanks hc).gives hc).bind fun _ c₁ hc₁ h₁ _ => ?_
    refine gives_rest ?_
    split
    · exact gives_here gives_fail
    · exact gives_pure hc₁ nofun
    · exact gives_pure hc₁ nofun
    · refine gives_here (((lands_takeWhile _ hc₁).gives hc₁).bind fun name c₂ hc₂ h₂ _ => ?_)
      split
      · exact gives_fail_bind
      · refine ((lands_skipBlanks hc₂).gives hc₂).bind fun _ c₃ hc₃ h₃ _ => ?_
        refine (gives_attributeOperand _ hc₃).bind fun value c₄ hc₄ h₄ hvalue => ?_
        have hfirst : Attribute.Between ctx.source c.position.offset c₄.position.offset
            ⟨String.ofList name, .ofName (String.ofList name), value, ⟨c₁.position, c₄.position⟩⟩ :=
          ⟨rfl, ⟨hc₁.position.exact, hc₄.position.exact, Nat.le_trans h₂ (Nat.le_trans h₃ h₄),
            hc₄.position.exact.offset_le⟩, h₁, Nat.le_refl _, hvalue⟩
        refine gives_spanFrom ((ih hc₄).bind fun attributes c₅ hc₅ h₅ hattributes => ?_)
        refine gives_pure hc₅ (List.forall_mem_cons.2 ⟨hfirst.mono (Nat.le_refl _) h₅, ?_⟩)
        exact fun a ha => (hattributes a ha).mono (by omega) (Nat.le_refl _)

theorem gives_attributes (hc : c.At ctx.source) :
    Gives ctx c (fun attributes c' => ∀ a ∈ attributes,
      a.Between ctx.source c.position.offset c'.position.offset) attributes :=
  gives_rest (gives_attributesAt _ hc)

/-! ## Contents -/

/-- Siblings that were read between two cursors. A condition that ends them reads the names that are
noted with it. -/
structure SiblingsBetween (ctx : Context) (top : Bool) (c : Cursor) (siblings : Siblings)
    (c' : Cursor) : Prop where
  /-- The nodes stand one behind the other. -/
  row : Row ctx top c.position.offset c'.position.offset siblings.1
  /-- A condition is that of a further branch. -/
  condition : ∀ e p, siblings.2 = .elseIf e p → e.Faithful

/-- A reader of siblings below the top. -/
def GivesSiblings (ctx : Context) (s : TemplateReader Siblings) : Prop :=
  ∀ c : Cursor, c.At ctx.source → Gives ctx c (SiblingsBetween ctx false c) s

/-- A node that was read from a place on, up to where the reader stands. -/
abbrev NodeFrom (ctx : Context) (top : Bool) (start : Position) (n : Node) (c : Cursor) : Prop :=
  n.Between ctx top start.offset c.position.offset

theorem gives_childrenOf (hs : GivesSiblings ctx s) (tag : String) (hc : c.At ctx.source) :
    Gives ctx c (fun cs c' => Contents ctx c.position.offset c'.position.offset [cs])
      (childrenOf s tag start) := by
  refine (hs c hc).bind fun siblings c' hc' _ h => ?_
  obtain ⟨nodes, stop⟩ := siblings
  cases stop with
  | closeTag name close =>
    dsimp only
    split
    · exact gives_pure hc' h.row.contents
    · exact gives_fail
  | _ => exact gives_fail

/-- The children of a tag that may close itself. -/
theorem gives_children (hs : GivesSiblings ctx s) (tag : String) (selfClosing : Bool)
    (hc : c.At ctx.source) :
    Gives ctx c (fun cs c' => Contents ctx c.position.offset c'.position.offset [cs])
      (if selfClosing then return [] else childrenOf s tag start) := by
  split
  · exact gives_pure hc Node.contents_singleton_nil
  · exact gives_childrenOf hs tag hc

theorem gives_macroCloseError {expected : String} {stop : Stop} :
    Gives ctx c P (macroCloseError expected stop start) := by
  cases stop <;> exact gives_fail

theorem gives_macroCloseError_bind {expected : String} {stop : Stop} {f : α → TemplateReader β} :
    Gives ctx c Q (macroCloseError expected stop start >>= f) := by
  cases stop <;> exact gives_fail_bind

theorem gives_scriptParts (rounds offset : Nat) (body : List Char) (hc : c.At ctx.source) :
    Gives ctx c (fun _ _ => True) (scriptParts rounds offset body) := by
  induction rounds generalizing offset body c with
  | zero => exact gives_pure hc trivial
  | succ rounds ih =>
    unfold scriptParts
    split
    · exact gives_pure hc trivial
    · dsimp only
      split
      · exact nofun
      · refine (gives_expression _ _ hc).bind fun _ _ hc _ _ => ?_
        exact (ih _ _ hc).bind fun _ _ hc _ _ => gives_pure hc trivial

theorem gives_statements (body : List Char) (offset line : Nat) (hc : c.At ctx.source) :
    Gives ctx c (fun ss _ => parseStatements (String.ofList body) = .ok ss)
      (statements body offset line) := by
  unfold statements
  split
  · next heq => exact gives_pure hc heq
  · exact gives_fail

/-! ## Nodes -/

/-- A node is made of its header, whose stretch ends where the reader stands. -/
theorem gives_node {tag : String} {attributes : List Attribute} {make : Header → Node}
    {P : Node → Cursor → Prop} (hc : c.At ctx.source)
    (h : P (make ⟨tag, attributes, ⟨start, c.position⟩, 0⟩) c) :
    Gives ctx c P ((do return ⟨tag, attributes, ← spanFrom start, 0⟩ : TemplateReader Header) >>=
      fun h => pure (make h)) := by
  have hmake : Gives ctx c P (spanFrom start >>= fun span =>
      pure (make ⟨tag, attributes, span, 0⟩)) := gives_spanFrom (gives_pure hc h)
  exact hmake

/-- A node that stands alone as what was read. -/
theorem gives_nodeItem {tag : String} {make : Header → Node} {P : Item → Cursor → Prop}
    (hc : c.At ctx.source) (h : P (.node (make ⟨tag, [], ⟨start, c.position⟩, 0⟩)) c) :
    Gives ctx c P (headerFrom tag start >>= fun h => pure (.node (make h))) := by
  have hmake : Gives ctx c P (spanFrom start >>= fun span =>
      pure (.node (make ⟨tag, [], span, 0⟩))) := gives_spanFrom (gives_pure hc h)
  exact hmake

theorem mem_of_takeAttribute? {name : String} {attributes others : List Attribute}
    {found : Attribute} (h : takeAttribute? name attributes = some (found, others)) :
    found ∈ attributes := by
  induction attributes generalizing others with
  | nil => cases h
  | cons a rest ih =>
    rw [takeAttribute?] at h
    split at h
    · obtain ⟨rfl, -⟩ := Prod.mk.inj (Option.some.inj h)
      exact List.mem_cons_self
    · obtain ⟨⟨found', others'⟩, hrest, hpair⟩ := Option.map_eq_some_iff.1 h
      obtain ⟨rfl, -⟩ := Prod.mk.inj hpair
      exact List.mem_cons_of_mem a (ih hrest)

theorem gives_directive (hs : GivesSiblings ctx s) (tag : String) {attributes : List Attribute}
    (selfClosing : Bool) (hc : c.At ctx.source) (hstart : start.Of ctx.source)
    (hread : start.offset < c.position.offset)
    (hattributes : ∀ a ∈ attributes, a.Between ctx.source start.offset c.position.offset) :
    Gives ctx c (NodeFrom ctx top start) (directive s tag attributes selfClosing start) := by
  refine gives_here ?_
  have hlow := Nat.le_of_lt hread
  have hchildren : Gives ctx c (fun cs c' => Contents ctx start.offset c'.position.offset [cs])
      (if selfClosing then return [] else childrenOf s tag start) :=
    (gives_children hs tag selfClosing hc).mono fun _ _ _ h => h.mono hlow (Nat.le_refl _)
  have hbody : Gives ctx c (fun body c' => ∃ after, c.rest = body ++ after ∧ c'.rest <:+ after)
      (rawBody tag selfClosing start) :=
    ((lands_rawBody tag selfClosing hc hstart).gives hc).mono fun _ _ _ h => h.2
  have hbehind {c' : Cursor} (h : c.position.offset ≤ c'.position.offset) :
      ∀ a ∈ attributes, a.Between ctx.source start.offset c'.position.offset :=
    fun a ha => (hattributes a ha).mono (Nat.le_refl _) h
  dsimp only
  generalize Tag.directiveName tag = directive
  split
  · refine hbody.bind fun body c₁ hc₁ h₁ ⟨after, hafter, hend⟩ => ?_
    refine (gives_statements _ _ _ hc₁).bind fun ss c₂ hc₂ h₂ hss => ?_
    have hlast := hc.offset_behind hc₁ hafter hend
    refine gives_node hc₂ (Node.between_of_parts hstart hc₂ (by omega) rfl (hbehind (by omega))
      Node.contents_singleton_nil nofun (fun _ => rfl) trivial nofun (fun _ => trivial) ⟨hss, ?_⟩)
    rw [String.toList_ofList]
    obtain ⟨before, hsource, hposition⟩ := hc
    have hoffset : c.position.offset = byteLength before := by
      rw [hposition, Position.offset_after_start]
    refine ⟨before, after, hsource.trans (congrArg _ hafter), ?_, ?_, ?_⟩
    · exact Nat.le_trans hlow (Nat.le_of_eq hoffset)
    · exact Nat.le_trans (hoffset ▸ hlast) h₂
    · rw [hposition, Position.line_after_start]
  · refine hbody.bind fun body c₁ hc₁ h₁ _ => ?_
    exact gives_node hc₁ (Node.between_of_parts hstart hc₁ (by omega) rfl (hbehind (by omega))
      Node.contents_singleton_nil nofun (fun _ => rfl) trivial nofun (fun _ => trivial) trivial)
  · refine hbody.bind fun body c₁ hc₁ h₁ _ => ?_
    refine (gives_scriptParts _ _ _ hc₁).bind fun parts c₂ hc₂ h₂ _ => ?_
    refine gives_node hc₂ (Node.between_of_parts hstart hc₂ (by omega) rfl (hbehind (by omega))
      Node.contents_singleton_nil nofun (fun _ => rfl) trivial ?_ (fun _ => trivial) trivial)
    exact List.forall_mem_singleton.2 (DynamicExpr.faithful_of ..)
  · refine hchildren.bind fun cs c₁ hc₁ h₁ hcs => ?_
    exact gives_node hc₁ (Node.between_of_parts hstart hc₁ (by omega) rfl (hbehind h₁) hcs nofun
      nofun trivial nofun (fun _ => trivial) trivial)
  · refine hchildren.bind fun cs c₁ hc₁ h₁ hcs => ?_
    exact gives_node hc₁ (Node.between_of_parts hstart hc₁ (by omega) rfl (hbehind h₁) hcs nofun
      nofun trivial nofun (fun _ => trivial) trivial)
  · refine hchildren.bind fun cs c₁ hc₁ h₁ hcs => ?_
    exact gives_node hc₁ (Node.between_of_parts hstart hc₁ (by omega) rfl (hbehind h₁) hcs nofun
      nofun trivial nofun (fun _ => trivial) trivial)
  · refine hchildren.bind fun cs c₁ hc₁ h₁ hcs => ?_
    generalize Attribute.literal? attributes "to" = signal
    generalize Attribute.literal? attributes "action" = action
    split
    · exact gives_node hc₁ (Node.between_of_parts hstart hc₁ (by omega) rfl (hbehind h₁) hcs nofun
        nofun trivial nofun (fun _ => trivial) trivial)
    · exact gives_fail
  · cases his : takeAttribute? "is" attributes with
    | none => exact gives_fail
    | some found =>
      obtain ⟨is, others⟩ := found
      have hothers := takeAttribute?_subset his
      have hfound : ∀ e ∈ is.value.dynamic?, e.Faithful :=
        (hattributes is (mem_of_takeAttribute? his)).faithful
      dsimp only
      generalize is.value = value at *
      cases value with
      | literal name =>
        simp only [pure_bind]
        refine hchildren.bind fun cs c₁ hc₁ h₁ hcs => gives_spanFrom (gives_pure hc₁ ?_)
        exact Node.between_of_parts hstart hc₁ (by omega) rfl (fun a ha => hbehind h₁ a (hothers ha))
          hcs nofun nofun trivial nofun (fun _ => trivial) trivial
      | dynamic e =>
        simp only [pure_bind]
        refine hchildren.bind fun cs c₁ hc₁ h₁ hcs => gives_spanFrom (gives_pure hc₁ ?_)
        exact Node.between_of_parts hstart hc₁ (by omega) rfl (fun a ha => hbehind h₁ a (hothers ha))
          hcs nofun nofun trivial (List.forall_mem_singleton.2 (hfound e rfl)) (fun _ => trivial)
          trivial
      | empty => exact gives_fail_bind
  · exact gives_fail

/-- The end of a tag is read, if the tag has not closed itself. -/
theorem gives_tagEnd (selfClosing : Bool) (hc : c.At ctx.source) {next : Unit → TemplateReader α}
    (h : ∀ c' : Cursor, c'.At ctx.source → c.position.offset ≤ c'.position.offset →
      Gives ctx c' P (next ())) :
    Gives ctx c P (if !selfClosing then eat ">" >>= fun closed =>
      if !closed then fail .unclosedTag start none >>= next else next () else next ()) := by
  split
  · refine ((lands_eat ">" hc).gives hc).bind fun closed c' hc' h' _ => ?_
    split
    · exact gives_fail_bind
    · exact h c' hc' h'
  · exact h c hc (Nat.le_refl _)

theorem gives_element (hs : GivesSiblings ctx s) (hc : c.At ctx.source)
    (hopen : atTagOpen c.rest = true) :
    Gives ctx c (NodeFrom ctx top c.position) (element s top) := by
  obtain ⟨left, hleft⟩ : ∃ left, c.rest = "<".toList ++ left := by
    unfold atTagOpen at hopen
    split at hopen
    · next heq => exact ⟨_, heq⟩
    · cases hopen
  have hstart := hc.position
  refine gives_here (((lands_eat_front hc hleft).gives hc).bind fun _ c₁ hc₁ _ ⟨h₁, _⟩ => ?_)
  have h₁ : c.position.offset < c₁.position.offset := h₁
  refine ((lands_takeWhile isTagChar hc₁).gives hc₁).bind fun tag c₂ hc₂ h₂ _ => ?_
  refine (gives_attributes hc₂).bind fun attributes c₃ hc₃ h₃ hattributes => ?_
  refine ((lands_eat "/>" hc₃).gives hc₃).bind fun selfClosing c₄ hc₄ h₄ _ => ?_
  refine gives_tagEnd selfClosing hc₄ fun c₅ hc₅ h₅ => ?_
  have hread : c.position.offset < c₅.position.offset := by omega
  have hattributes : ∀ a ∈ attributes,
      a.Between ctx.source c.position.offset c₅.position.offset :=
    fun a ha => (hattributes a ha).mono (by omega) (by omega)
  have hchildren : Gives ctx c₅ (fun cs c' =>
      Contents ctx c.position.offset c'.position.offset [cs] ∧
        ∀ a ∈ attributes, a.Between ctx.source c.position.offset c'.position.offset)
      (if selfClosing then return [] else childrenOf s (String.ofList tag) c.position) :=
    (gives_children hs _ selfClosing hc₅).mono fun _ _ h hcs =>
      ⟨hcs.mono (Nat.le_of_lt hread) (Nat.le_refl _),
        fun a ha => (hattributes a ha).mono (Nat.le_refl _) h⟩
  dsimp only
  generalize TagClass.ofTag (String.ofList tag) = cls
  cases cls with
  | root =>
    cases top with
    | false => exact gives_fail_bind
    | true =>
      refine hchildren.bind fun cs c₆ hc₆ h₆ ⟨hcs, hattributes⟩ => ?_
      exact gives_node hc₆ (Node.between_of_parts hstart hc₆ (by omega) rfl hattributes hcs
        (fun _ => rfl) nofun trivial nofun (fun _ => trivial) trivial)
  | control => exact gives_fail
  | directive => exact gives_directive hs _ selfClosing hc₅ hstart hread hattributes
  | component =>
    refine hchildren.bind fun cs c₆ hc₆ h₆ ⟨hcs, hattributes⟩ => ?_
    exact gives_node hc₆ (Node.between_of_parts hstart hc₆ (by omega) rfl hattributes hcs nofun
      nofun trivial nofun (fun _ => trivial) trivial)
  | element =>
    dsimp only
    split
    · rw [pure_bind]
      exact gives_node hc₅ (Node.between_of_parts hstart hc₅ hread rfl hattributes
        Node.contents_singleton_nil nofun (fun _ => rfl) trivial nofun (fun _ => trivial) trivial)
    · next hvoid =>
      refine hchildren.bind fun cs c₆ hc₆ h₆ ⟨hcs, hattributes⟩ => ?_
      exact gives_node hc₆ (Node.between_of_parts hstart hc₆ (by omega) rfl hattributes hcs nofun
        (fun h => absurd h hvoid) trivial nofun (fun _ => trivial) trivial)

/-- What the branches of a condition are. The predicate of the first may be missing only if it is
behind an alternative, and then it is the last. -/
structure BranchesBetween (ctx : Context) (reactive : Bool) (c : Cursor)
    (bs : List (Option DynamicExpr × List Node)) (c' : Cursor) : Prop where
  /-- Their nodes stand one behind the other. -/
  contents : Contents ctx c.position.offset c'.position.offset (bs.map (·.2))
  /-- There is one. -/
  nonempty : bs ≠ []
  /-- Each but the last has a predicate. -/
  predicates : ∀ b ∈ bs.dropLast, b.1.isSome
  /-- The predicates are as reactive as the condition. -/
  reactive : ∀ b ∈ bs, ∀ e ∈ b.1, e.reactive = reactive
  /-- The names that they read are noted. -/
  faithful : ∀ b ∈ bs, ∀ e ∈ b.1, e.Faithful

/-- A branch that is followed by others has a predicate. -/
theorem BranchesBetween.cons {reactive : Bool} {c₁ c₂ : Cursor}
    {bs : List (Option DynamicExpr × List Node)} {e : DynamicExpr} {nodes : List Node}
    (h : BranchesBetween ctx reactive c₁ bs c₂)
    (hnodes : Contents ctx c.position.offset c₁.position.offset [nodes])
    (h₁ : c.position.offset ≤ c₁.position.offset) (h₂ : c₁.position.offset ≤ c₂.position.offset)
    (he : e.reactive = reactive ∧ e.Faithful) :
    BranchesBetween ctx reactive c ((some e, nodes) :: bs) c₂ where
  contents := hnodes.append h.contents h₁ h₂
  nonempty := List.cons_ne_nil _ _
  predicates := by
    rw [List.dropLast_cons_of_ne_nil h.nonempty]
    exact List.forall_mem_cons.2 ⟨rfl, h.predicates⟩
  reactive := List.forall_mem_cons.2 ⟨by rintro _ ⟨⟩; exact he.1, h.reactive⟩
  faithful := List.forall_mem_cons.2 ⟨by rintro _ ⟨⟩; exact he.2, h.faithful⟩

theorem gives_branches (hs : GivesSiblings ctx s) (reactive : Bool) (rounds : Nat)
    (predicate : Option DynamicExpr) (seenElse : Bool) (hc : c.At ctx.source)
    (hpredicate : seenElse = false → predicate.isSome)
    (hknown : ∀ e ∈ predicate, e.reactive = reactive ∧ e.Faithful) :
    Gives ctx c (BranchesBetween ctx reactive c)
      (branches s reactive start rounds predicate seenElse) := by
  induction rounds generalizing predicate seenElse c with
  | zero => exact gives_fail
  | succ rounds ih =>
    refine (hs c hc).bind fun siblings c₁ hc₁ h₁ hsiblings => ?_
    obtain ⟨nodes, stop⟩ := siblings
    have hfirst := hsiblings.row.contents
    have hcondition := hsiblings.condition
    dsimp only at hcondition ⊢
    split
    · next condition _ =>
      obtain ⟨e, rfl⟩ := Option.isSome_iff_exists.1 (hpredicate rfl)
      have hnext : ∀ e' ∈ some { condition with reactive := reactive },
          e'.reactive = reactive ∧ e'.Faithful := by
        rintro _ ⟨⟩
        obtain ⟨hfree, hlists⟩ := hcondition condition _ rfl
        exact ⟨rfl, hfree, hlists⟩
      exact (ih _ _ hc₁ (fun _ => rfl) hnext).bind fun bs c₂ hc₂ h₂ hbs =>
        gives_pure hc₂ (hbs.cons hfirst h₁ h₂ (hknown e rfl))
    · obtain ⟨e, rfl⟩ := Option.isSome_iff_exists.1 (hpredicate rfl)
      exact (ih none true hc₁ (fun h => nomatch h) (fun e h => nomatch h)).bind
        fun bs c₂ hc₂ h₂ hbs => gives_pure hc₂ (hbs.cons hfirst h₁ h₂ (hknown e rfl))
    · refine gives_pure hc₁ ⟨hfirst, List.cons_ne_nil _ _, nofun, ?_, ?_⟩
      · exact List.forall_mem_singleton.2 fun e he => (hknown e he).1
      · exact List.forall_mem_singleton.2 fun e he => (hknown e he).2
    · exact gives_macroCloseError

theorem isIdentifier_of_loopHead? {args rest : List Char} {var : String}
    (h : loopHead? args = some (var, rest)) : isIdentifier var = true := by
  unfold loopHead? at h
  dsimp only at h
  split at h
  · cases h
  · split at h
    · split at h
      · next hname =>
        obtain ⟨rfl, -⟩ := Prod.mk.inj (Option.some.inj h)
        exact ((Bool.and_eq_true _ _).mp hname).2
      · cases h
    · cases h

theorem gives_loopRest (hs : GivesSiblings ctx s) {var : String} {iterable : DynamicExpr}
    {identity : Option DynamicExpr} (hc : c.At ctx.source) (hstart : start.Of ctx.source)
    (hread : start.offset < c.position.offset) (hvar : isIdentifier var = true)
    (hiterable : iterable.Faithful)
    (hidentity : ∀ e ∈ identity, e.reactive = false ∧ e.Faithful) :
    Gives ctx c (NodeFrom ctx top start) (loopRest s var iterable identity start) := by
  refine (hs c hc).bind fun siblings c₁ hc₁ h₁ hsiblings => ?_
  obtain ⟨nodes, stop⟩ := siblings
  have hbody : Contents ctx start.offset c₁.position.offset [Node.arrange nodes] :=
    hsiblings.row.contents.mono (Nat.le_of_lt hread) (Nat.le_refl _)
  have hloop (empty : Option (List Node)) {c₂ : Cursor} (hc₂ : c₂.At ctx.source)
      (h₂ : c₁.position.offset ≤ c₂.position.offset)
      (hcontents : Contents ctx start.offset c₂.position.offset
        (Node.arrange nodes :: empty.toList)) :
      Gives ctx c₂ (NodeFrom ctx top start) (headerFrom "#for" start >>= fun h =>
        pure (Node.loop h var iterable identity (Node.arrange nodes) empty)) :=
    gives_node hc₂ (Node.between_of_parts hstart hc₂ (by omega) rfl nofun hcontents nofun nofun
      ⟨hvar, fun e he => (hidentity e he).1⟩
      (List.forall_mem_cons.2 ⟨hiterable, fun e he =>
        (hidentity e (Option.mem_toList.1 he)).2⟩) (fun _ => trivial) trivial)
  dsimp only
  split
  · exact hloop none hc₁ (Nat.le_refl _) hbody
  · refine (hs c₁ hc₁).bind fun siblings c₂ hc₂ h₂ hsiblings => ?_
    obtain ⟨others, stop⟩ := siblings
    dsimp only
    split
    · exact hloop (some _) hc₂ h₂ (hbody.append hsiblings.row.contents (by omega) h₂)
    · exact gives_macroCloseError_bind
  · exact gives_macroCloseError_bind

theorem gives_loop (hs : GivesSiblings ctx s) (args : List Char) (reactive : Bool)
    (hc : c.At ctx.source) (hstart : start.Of ctx.source)
    (hread : start.offset < c.position.offset) :
    Gives ctx c (NodeFrom ctx top start) (loop s args reactive start) := by
  unfold loop
  cases hhead : loopHead? args with
  | none => exact gives_fail
  | some head =>
    obtain ⟨var, rest⟩ := head
    have hvar := isIdentifier_of_loopHead? hhead
    dsimp only
    cases splitUnquoted '#' none rest with
    | none =>
      refine (gives_expression _ _ hc).bind fun e c₁ hc₁ h₁ _ => ?_
      exact gives_loopRest hs hc₁ hstart (by omega) hvar (DynamicExpr.faithful_of ..) nofun
    | some cut =>
      refine (gives_expression _ _ hc).bind fun e c₁ hc₁ h₁ _ => ?_
      refine (gives_expression _ _ hc₁).bind fun e' c₂ hc₂ h₂ _ => ?_
      have hidentity (source : String) : ∀ i ∈ some (DynamicExpr.of e' false source),
          i.reactive = false ∧ i.Faithful := by
        rintro _ ⟨⟩
        exact ⟨rfl, DynamicExpr.faithful_of ..⟩
      exact gives_loopRest hs hc₂ hstart (by omega) hvar (DynamicExpr.faithful_of ..) (hidentity _)

theorem gives_binding (hs : GivesSiblings ctx s) (args : List Char) (reactive : Bool)
    (hc : c.At ctx.source) (hstart : start.Of ctx.source)
    (hread : start.offset < c.position.offset) :
    Gives ctx c (NodeFrom ctx top start) (binding s args reactive start) := by
  unfold binding
  dsimp only
  split
  · exact gives_fail
  · split
    · exact gives_fail
    · next hname =>
      refine (gives_expression _ _ hc).bind fun e c₁ hc₁ h₁ _ => ?_
      refine (hs c₁ hc₁).bind fun siblings c₂ hc₂ h₂ hsiblings => ?_
      obtain ⟨nodes, stop⟩ := siblings
      have hcontents : Contents ctx start.offset c₂.position.offset [Node.arrange nodes] :=
        hsiblings.row.contents.mono (by omega) (Nat.le_refl _)
      dsimp only
      split
      · refine gives_node hc₂ (Node.between_of_parts hstart hc₂ (by omega) rfl nofun hcontents
          nofun nofun ?_ (List.forall_mem_singleton.2 (DynamicExpr.faithful_of ..)) (fun _ => trivial)
          trivial)
        show isIdentifier _ = true
        simpa using hname
      · exact gives_macroCloseError

/-! ## Items -/

/-- Whether a trimmed macro is marked as reactive, and the rest of it. -/
def mustacheRead (trimmed : List Char) : Bool × List Char :=
  match trimmed with
  | '!' :: tail => (true, Text.trimStart tail)
  | _ => (false, trimmed)

/-- What was read at the front: a node, something that leaves none, or what ends siblings. -/
def ItemBetween (ctx : Context) (top : Bool) (c : Cursor) (item : Item) (c' : Cursor) : Prop :=
  match item with
  | .node n => NodeFrom ctx top c.position n c'
  | .nothing => True
  | .stop stop => ∀ e p, stop = .elseIf e p → e.Faithful

theorem gives_mustacheBody (hs : GivesSiblings ctx s) (reactive : Bool) (body : List Char)
    {c' : Cursor} (hc : c.At ctx.source) (hc' : c'.At ctx.source)
    (hread : c.position.offset < c'.position.offset) :
    Gives ctx c' (ItemBetween ctx top c) (mustacheBody s reactive body c.position) := by
  have hstart := hc.position
  have hitem {m : TemplateReader Node} (h : Gives ctx c' (NodeFrom ctx top c.position) m) :
      Gives ctx c' (ItemBetween ctx top c) (m >>= fun node => pure (.node node)) :=
    h.bind fun _ _ hc₁ _ hnode => gives_pure hc₁ hnode
  have hcondition (args : List Char) : Gives ctx c' (fun e _ => e.reactive = reactive ∧ e.Faithful)
      (expression args (c.position.offset + 2) >>= fun e =>
        pure (DynamicExpr.of e reactive (String.ofList args))) :=
    (gives_expression _ _ hc').bind fun e _ hc₁ _ _ =>
      gives_pure hc₁ ⟨rfl, DynamicExpr.faithful_of ..⟩
  unfold mustacheBody
  split
  · exact gives_pure hc' nofun
  · next tail =>
    dsimp only
    generalize String.ofList (tail.span (!Text.isBlank ·)).1 = keyword
    generalize Text.trim (tail.span (!Text.isBlank ·)).2 = args
    split
    · refine (hcondition args).bind fun first c₁ hc₁ h₁ hfirst => gives_rest ?_
      refine (gives_branches hs reactive _ (some first) false hc₁ (fun _ => rfl) ?_).bind
        fun bs c₂ hc₂ h₂ hbs => ?_
      · rintro _ ⟨⟩
        exact hfirst
      · refine gives_nodeItem hc₂ (Node.between_of_parts hstart hc₂ (by omega) rfl nofun
          (hbs.contents.mono (by omega) (Nat.le_refl _)) nofun nofun
          ⟨hbs.nonempty, hbs.predicates, hbs.reactive⟩ ?_ (fun _ => trivial) trivial)
        intro e he
        obtain ⟨b, hb, he⟩ := List.mem_filterMap.1 he
        exact hbs.faithful b hb e he
    · refine (hcondition args).bind fun e c₁ hc₁ _ he => gives_pure hc₁ ?_
      rintro _ _ ⟨⟩
      exact he.2
    · exact gives_pure hc' nofun
    · exact hitem (gives_loop hs args reactive hc' hstart hread)
    · exact hitem (gives_binding hs args reactive hc' hstart hread)
    · exact gives_fail
  · refine (gives_expression _ _ hc').bind fun e c₁ hc₁ h₁ _ => gives_nodeItem hc₁ ?_
    exact Node.between_of_parts hstart hc₁ (by omega) rfl nofun Node.contents_singleton_nil nofun
      nofun trivial (List.forall_mem_singleton.2 (DynamicExpr.faithful_of ..)) (fun _ => trivial)
      trivial

theorem gives_mustacheItem (hs : GivesSiblings ctx s) (hc : c.At ctx.source) {left : List Char}
    (hleft : c.rest = "\x7b\x7b".toList ++ left) :
    Gives ctx c (ItemBetween ctx top c) (mustacheItem s) := by
  refine gives_here (((lands_eat_front hc hleft).gives hc).bind fun _ c₁ hc₁ _ ⟨h₁, _⟩ => ?_)
  refine ((lands_takeThrough? _ hc₁).gives hc₁).bind fun content c₂ hc₂ h₂ _ => ?_
  have hbraces : "\x7b\x7b".toList.length = 2 := rfl
  cases content with
  | none => exact gives_fail
  | some content =>
    dsimp only
    generalize Text.trim content = trimmed
    have hbody (read : Bool × List Char) : Gives ctx c₂ (ItemBetween ctx top c)
        (mustacheBody s read.1 read.2 c.position) := gives_mustacheBody hs _ _ hc hc₂ (by omega)
    exact hbody (mustacheRead trimmed)

/-- A text stands in the source as it is, unless blanks are dropped. -/
theorem gives_textItem (hc : c.At ctx.source) {d : Char} {left : List Char}
    (hleft : c.rest = d :: left) : Gives ctx c (ItemBetween ctx top c) textItem := by
  refine gives_here (gives_rest ?_)
  have hsplit : c.rest = (d :: (splitText left).1) ++ (splitText left).2 := by
    rw [hleft, List.cons_append, splitText_append]
  rw [hleft]
  dsimp only
  have hraw : 0 < byteLength (d :: (splitText left).1) := by
    rw [Text.byteLength_cons]
    exact Nat.add_pos_left (Char.utf8Size_pos d) _
  generalize d :: (splitText left).1 = raw at *
  generalize hrest : (splitText left).2 = rest at *
  have hskip : Gives ctx c (fun _ c' => c' = ⟨rest, c.position.after raw⟩) (skipOver raw rest) := by
    intro _ c' h
    obtain ⟨-, rfl⟩ := Prod.mk.inj (Except.ok.inj h)
    exact ⟨hc.skip hsplit, (Position.after_eq c.position raw).1 ▸ Nat.le_add_right .., rfl⟩
  refine hskip.bind fun _ c₁ hc₁ _ hc₁_eq => gives_read ?_
  have hoffset : c₁.position.offset = c.position.offset + byteLength raw := by
    rw [hc₁_eq, (Position.after_eq c.position raw).1]
  split
  · exact gives_pure hc₁ trivial
  · refine gives_nodeItem hc₁ (Node.between_of_parts hc.position hc₁ (by omega) rfl nofun
      Node.contents_singleton_nil nofun nofun trivial nofun (fun htrim => ?_) trivial)
    rw [htrim]
    refine ⟨?_, ?_⟩
    · rw [String.toList_ofList]
      exact hc.stands hsplit
    · rw [String.toList_ofList]
      exact hoffset

theorem gives_commentItem (hc : c.At ctx.source) :
    Gives ctx c (ItemBetween ctx top c) commentItem := by
  refine gives_here (((lands_takeThrough? "-->" hc).gives hc).bind fun comment c₁ hc₁ _ _ => ?_)
  cases comment with
  | none => exact gives_fail
  | some comment => exact gives_pure hc₁ trivial

theorem gives_closeTagItem (hc : c.At ctx.source) :
    Gives ctx c (ItemBetween ctx top c) closeTagItem := by
  refine gives_here (((lands_eat "</" hc).gives hc).bind fun _ c₁ hc₁ _ _ => ?_)
  refine ((lands_takeWhile isTagChar hc₁).gives hc₁).bind fun tag c₂ hc₂ _ _ => ?_
  refine ((lands_skipBlanks hc₂).gives hc₂).bind fun _ c₃ hc₃ _ _ => ?_
  refine ((lands_eat ">" hc₃).gives hc₃).bind fun closed c₄ hc₄ _ _ => ?_
  split
  · exact gives_pure hc₄ nofun
  · exact gives_fail

theorem gives_item (hs : GivesSiblings ctx s) (hc : c.At ctx.source) :
    Gives ctx c (ItemBetween ctx top c) (item s top) := by
  refine gives_rest ?_
  generalize hleft : c.rest = left
  split
  · exact gives_pure hc nofun
  · exact gives_commentItem hc
  · exact gives_closeTagItem hc
  · exact gives_mustacheItem hs hc hleft
  · split
    · next hopen =>
      exact (gives_element hs hc (by rw [hleft]; exact hopen)).bind fun node _ hc₁ _ hnode =>
        gives_pure hc₁ hnode
    · cases left with
      | nil => contradiction
      | cons d left => exact gives_textItem hc hleft

/-- Siblings are read one behind the other, and what is inside them is read by fewer steps. -/
theorem gives_nodesAt (steps : Nat) (top : Bool) (hc : c.At ctx.source) :
    Gives ctx c (SiblingsBetween ctx top c) (nodesAt steps top) := by
  induction steps generalizing top c with
  | zero => exact gives_pure hc ⟨Node.row_nil, nofun⟩
  | succ steps ih =>
    refine (gives_item (fun _ hc => ih false hc) hc).bind fun item c₁ hc₁ h₁ hitem => ?_
    cases item with
    | stop stop => exact gives_pure hc₁ ⟨Node.row_nil, hitem⟩
    | nothing =>
      refine (ih top hc₁).mono fun siblings c₂ h₂ h => ⟨?_, h.condition⟩
      exact ⟨fun n hn => (h.row.between n hn).mono h₁ (Nat.le_refl _), h.row.ordered⟩
    | node node =>
      refine (ih top hc₁).bind fun siblings c₂ hc₂ h₂ h => ?_
      exact gives_pure hc₂ ⟨h.row.cons hitem h₂, h.condition⟩

/-! ## Templates -/

theorem gives_template (hc : c.At ctx.source) (hstart : c.position = .start) :
    Gives ctx c (fun tree _ => tree.isRoot = true ∧ tree.Everywhere (Node.Good ctx)) template := by
  refine gives_rest ((gives_nodesAt _ true hc).bind fun siblings c₁ hc₁ h₁ hsiblings => ?_)
  obtain ⟨nodes, stop⟩ := siblings
  have hrow := hsiblings.row
  dsimp only at hrow ⊢
  cases stop with
  | eof =>
    dsimp only
    cases hroot : nodes.find? Node.isRoot with
    | none =>
      have hnone : ∀ n ∈ nodes, n.isRoot = false := fun n hn =>
        Bool.eq_false_iff.2 (List.find?_eq_none.1 hroot n hn)
      rw [hstart] at hrow h₁
      refine gives_read (gives_spanFrom (gives_pure hc₁ ⟨rfl, ?_⟩))
      exact Node.everywhere_good_of_parts ⟨[], List.nil_prefix, rfl⟩ hc₁ h₁ rfl nofun
        (hrow.below hnone).contents nofun trivial nofun (fun _ => trivial) trivial
    | some root =>
      have hgood := (hrow.between root (List.mem_of_find?_eq_some hroot)).good
      rcases nodes with _ | ⟨first, _ | ⟨second, others⟩⟩
      · cases hroot
      · exact gives_pure hc₁ ⟨List.find?_some hroot, hgood⟩
      · exact gives_fail
  | _ => exact gives_fail_bind

end TemplateReader

theorem parseTemplate_good {source : String} {options : ParserOptions} {tree : Node}
    (h : parseTemplate source options = .ok tree) : tree.isRoot = true ∧
      tree.Everywhere (Node.Good ⟨source.toList, options⟩) := by
  unfold parseTemplate at h
  dsimp only at h
  have hgives := @TemplateReader.gives_template ⟨source.toList, options⟩ ⟨source.toList, .start⟩
    (TemplateReader.at_start source.toList) rfl
  cases hread : TemplateReader.template ⟨source.toList, options⟩ ⟨source.toList, .start⟩ with
  | error e =>
    rw [hread] at h
    cases h
  | ok read =>
    rw [hread] at h
    obtain rfl := Except.ok.inj h
    exact (hgives _ _ hread).2.2

/-- A template that is read has a root at the top, and all its nodes are well formed. -/
theorem parseTemplate_wellFormed {source : String} {options : ParserOptions} {tree : Node}
    (h : parseTemplate source options = .ok tree) :
    tree.isRoot = true ∧ tree.Everywhere Node.WellFormed := by
  obtain ⟨hroot, hgood⟩ := parseTemplate_good h
  exact ⟨hroot, hgood.mono fun _ hn => hn.wellFormed⟩

/-- A void element, code that is moved to the front, and all that control words can enclose. -/
theorem parseTemplate_wellFormed_page :
    let page := "<br><p class=\"a\">t</p><python>n = 1</python>" ++
      "\x7b\x7b!#if x\x7d\x7dyes\x7b\x7b#else\x7d\x7dno\x7b\x7b/if\x7d\x7d" ++
      "\x7b\x7b#for i in xs # i\x7d\x7d\x7b\x7bi\x7d\x7d\x7b\x7b#else\x7d\x7dnone\x7b\x7b/for\x7d\x7d"
    ∃ tree, parseTemplate page {} = .ok tree ∧ tree.isRoot = true ∧
      tree.Everywhere Node.WellFormed := by
  intro page
  have hread : (parseTemplate page {}).isOk = true := by decide +kernel
  cases htree : parseTemplate page {} with
  | error e =>
    rw [htree] at hread
    cases hread
  | ok tree => exact ⟨tree, rfl, parseTemplate_wellFormed htree⟩

end ReactiveView

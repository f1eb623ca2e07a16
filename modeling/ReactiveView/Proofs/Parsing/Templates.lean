import ReactiveView.Proofs.Parsing.Readers

/-!
# Reading templates stays in the source

Siblings are read up to what ends them. The readers of everything that nests siblings are followed
for two readers of the nested siblings that do the same where fewer characters are left; since each
of them reads a character first, `TemplateReader.nodesAt` does the same for all bounds that are
  large
enough. All together is `reading_stays_within`.
-/

namespace ReactiveView

open Text (Boundary BrokenEscape Fits Located Stands byteLength lineCount)

namespace TemplateReader

variable {α β : Type} {ctx : Context} {c c' : Cursor} {j k n : Nat} {source : List Char}
  {P : α → Cursor → Prop} {Q : β → Cursor → Prop}

/-! ## Siblings -/

/-- What ends siblings stands at a place of the source. -/
def Stop.Within (source : List Char) : Stop → Prop
  | .eof => True
  | .closeTag _ p | .elseIf _ p | .otherwise p | .endMark _ p => p.Of source

/-- Siblings that lie in the source. What ended them was read, unless it is the end. -/
structure SiblingsWithin (source : List Char) (c : Cursor) (siblings : Siblings) (c' : Cursor) :
    Prop where
  /-- The nodes lie in the source. -/
  nodes : ∀ n ∈ siblings.1, n.Within source
  /-- What ended them does. -/
  stop : siblings.2.Within source
  /-- It was read. -/
  reads : siblings.2 = .eof ∨ c'.rest.length < c.rest.length

/-- Two readers of siblings that do the same where fewer than `n` characters are left. -/
def ReadsSiblings (ctx : Context) (n : Nat) (s s' : TemplateReader Siblings) : Prop :=
  ∀ c : Cursor, c.At ctx.source → c.rest.length < n →
    Lands ctx.source 0 c (SiblingsWithin ctx.source c) (s ctx c) (s' ctx c)

/-- Nodes that lie in the source. -/
abbrev NodesWithin (source : List Char) (nodes : List Node) (_ : Cursor) : Prop :=
  ∀ n ∈ nodes, n.Within source

variable {s s' : TemplateReader Siblings} {start : Position}

/-- The header of a node. -/
theorem lands_header {tag : String} {attributes : List Attribute} (hc : c.At source)
    (hstart : start.Of source) (hattributes : ∀ a ∈ attributes, a.span.Within source) :
    Reaches source 0 c (fun (h : Header) _ => h.Within source)
      ((do return ⟨tag, attributes, ← spanFrom start, 0⟩ : TemplateReader Header) ctx c) :=
  lands_spanFrom hc hstart fun _ hspan => lands_pure hc ⟨hspan, hattributes⟩

theorem lands_headerFrom (tag : String) (hc : c.At source) (hstart : start.Of source) :
    Reaches source 0 c (fun (h : Header) _ => h.Within source) (headerFrom tag start ctx c) :=
  lands_spanFrom hc hstart fun _ hspan => lands_pure hc ⟨hspan, nofun⟩

/-- A node is made of its header and of what is inside it. -/
theorem lands_node {tag : String} {attributes : List Attribute} {make : Header → Node}
    (hc : c.At source) (hstart : start.Of source)
    (hattributes : ∀ a ∈ attributes, a.span.Within source)
    (hmake : ∀ h, (make h).header = h ∧ ∀ m ∈ (make h).inner, m.Within source) :
    Reaches source 0 c (fun node _ => node.Within source)
      (((do return ⟨tag, attributes, ← spanFrom start, 0⟩ : TemplateReader Header) >>= fun h =>
        pure (make h)) ctx c) :=
  (lands_header hc hstart hattributes).next fun h _ hc _ hh =>
    lands_pure hc ⟨by rwa [(hmake h).1], (hmake h).2⟩

theorem lands_childrenOf (hs : ReadsSiblings ctx n s s') (tag : String) (hc : c.At ctx.source)
    (hstart : start.Of ctx.source) (hn : c.rest.length < n) :
    Lands ctx.source 0 c (NodesWithin ctx.source) (childrenOf s tag start ctx c)
      (childrenOf s' tag start ctx c) := by
  refine (hs c hc hn).next fun siblings c' hc' _ hwithin => ?_
  obtain ⟨nodes, stop⟩ := siblings
  have hstop := hwithin.stop
  cases stop with
  | eof => exact lands_fail hstart (by decide) _
  | closeTag name place =>
    dsimp only
    split
    · exact lands_pure hc' (Node.Within.arrange hwithin.nodes)
    · exact lands_fail hstop (by decide) _
  | elseIf _ place => exact lands_fail hstop (by decide) _
  | otherwise place => exact lands_fail hstop (by decide) _
  | endMark name place => exact lands_fail hstop (by decide) _

theorem lands_macroCloseError (expected : String) {stop : Stop} (hstop : stop.Within source)
    (hstart : start.Of source) :
    Reaches source k c P (macroCloseError expected stop start ctx c) := by
  cases stop with
  | eof => exact lands_fail hstart (by decide) _
  | closeTag name place => exact lands_fail hstop (by decide) _
  | elseIf _ place => exact lands_fail hstop (by decide) _
  | otherwise place => exact lands_fail hstop (by decide) _
  | endMark name place => exact lands_fail hstop (by decide) _

theorem lands_macroCloseError_bind (expected : String) {stop : Stop} (hstop : stop.Within source)
    (hstart : start.Of source) {f f' : α → TemplateReader β} :
    Lands source k c Q ((macroCloseError expected stop start >>= f) ctx c)
      ((macroCloseError expected stop start >>= f') ctx c) :=
  (lands_macroCloseError (k := k) (P := fun _ _ => False) expected hstop hstart).bind (k := 0)
    (fun _ _ _ _ h => h.elim) (Nat.le_refl _)

/-- The content of a raw block stands where the reader stood. -/
theorem lands_rawBody (tag : String) (selfClosing : Bool) (hc : c.At source)
    (hstart : start.Of source) :
    Reaches source 0 c (fun body c' => ∃ after, c.rest = body ++ after ∧ c'.rest <:+ after)
      (rawBody tag selfClosing start ctx c) := by
  unfold rawBody
  split
  · exact lands_pure hc ⟨c.rest, rfl, List.suffix_refl _⟩
  · refine (lands_takeThrough? _ hc).next fun body c' hc' _ hbody => ?_
    cases body with
    | none => exact lands_fail hstart (by decide) _
    | some body => exact lands_pure hc' ⟨_, hbody body rfl, List.suffix_append ..⟩

/-- Each round of substitutions reads two braces. -/
theorem lands_scriptParts {rounds rounds' offset : Nat} {body : List Char} (hc : c.At ctx.source)
    (hbody : Stands ctx.source offset body) (hrounds : body.length < rounds)
    (hrounds' : body.length < rounds') :
    Lands ctx.source 0 c (fun _ c' => c' = c) (scriptParts rounds offset body ctx c)
      (scriptParts rounds' offset body ctx c) := by
  induction rounds generalizing rounds' offset body with
  | zero => exact absurd hrounds (Nat.not_lt_zero _)
  | succ rounds ih =>
    cases rounds' with
    | zero => exact absurd hrounds' (Nat.not_lt_zero _)
    | succ rounds' =>
      unfold scriptParts
      cases hopen : Text.splitAt? ['\x7b', '\x7b'] body with
      | none =>
        dsimp only
        split <;> exact lands_pure hc rfl
      | some cut =>
        obtain ⟨before, after⟩ := cut
        have hsplit := Text.append_of_splitAt? hopen
        rw [hsplit] at hbody
        -- the places of the braces and of what follows them
        have hopened : Boundary ctx.source (offset + byteLength before) := hbody.left.right.boundary
        have hafter : Stands ctx.source (offset + byteLength before + 2) after := by
          have h := hbody.right
          rwa [Text.byteLength_append, ← Nat.add_assoc] at h
        dsimp only
        cases hclose : Text.splitAt? ['\x7d', '\x7d'] after with
        | none => exact lands_failAt hopened.le (fun _ => hopened) nofun
        | some cut =>
          obtain ⟨inside, tail⟩ := cut
          have hinside := Text.append_of_splitAt? hclose
          rw [hinside] at hafter
          have htail : Stands ctx.source (offset + byteLength before + 4 + byteLength inside)
            tail := by
            have h := hafter.right
            rw [Text.byteLength_append, ← Nat.add_assoc] at h
            have hcount : offset + byteLength before + 4 + byteLength inside =
                offset + byteLength before + 2 + byteLength inside + byteLength ['\x7d', '\x7d'] :=
                  by
              change _ = offset + byteLength before + 2 + byteLength inside + 2
              omega
            rwa [hcount]
          have hlength : tail.length < body.length := by
            rw [hsplit, hinside]
            simp only [List.length_append, List.length_cons, List.length_nil]
            omega
          refine (lands_expression hc (hafter.left.left.fits.mono (Text.trim_part inside))).next
            fun e c' _ _ hsame => ?_
          subst hsame
          refine (ih htail (by omega) (by omega)).next fun parts c' hc' _ hsame => ?_
          split <;> exact lands_pure hc' hsame

/-- The statements of a code block are read without a step, and an error in them stands in the
block. -/
theorem lands_statements {body after : List Char} (hc : c.At ctx.source)
    {c' : Cursor} (hc' : c'.At ctx.source) (hbody : c.rest = body ++ after) :
    Reaches ctx.source 0 c' (fun _ c'' => c'' = c')
      (statements body c.position.offset c.position.line ctx c') := by
  unfold statements
  cases heq : parseStatements (String.ofList body) with
  | ok ss => exact lands_pure hc' rfl
  | error e =>
    have hwithin := parseStatements_within heq
    rw [String.toList_ofList] at hwithin
    obtain ⟨before, hsource, hposition⟩ := hc
    have hoffset : c.position.offset = byteLength before := by
      rw [hposition, Position.offset_after_start]
    have hline : c.position.line = lineCount before := by
      rw [hposition, Position.line_after_start]
    have hlocated : Located ctx.source (c.position.offset + e.offset)
      (c.position.line + e.line - 1) := by
      rw [hsource, hbody, hoffset, hline, ← List.append_assoc]
      exact hwithin.located.append.extend after
    refine ⟨rfl, nofun, fun he => ?_⟩
    obtain rfl := Except.error.inj he
    refine ⟨hlocated.line_pos, hlocated.line_le, hlocated.boundary.le, fun _ => hlocated.boundary,
      fun _ hdetail => (hwithin.escape (SyntaxCause.eq_brokenEscape (Option.some.inj hdetail))).mono
        ?_⟩
    rw [hsource, hbody]
    exact ⟨before, after, List.append_assoc ..⟩

theorem takeAttribute?_subset {name : String} {attributes others : List Attribute}
    {found : Attribute}
    (h : takeAttribute? name attributes = some (found, others)) : others ⊆ attributes := by
  induction attributes generalizing others with
  | nil => cases h
  | cons a rest ih =>
    rw [takeAttribute?] at h
    split at h
    · obtain ⟨-, rfl⟩ := Prod.mk.inj (Option.some.inj h)
      exact List.subset_cons_self a rest
    · obtain ⟨⟨found', rest'⟩, hrest, hpair⟩ := Option.map_eq_some_iff.1 h
      obtain ⟨rfl, rfl⟩ := Prod.mk.inj hpair
      exact List.cons_subset_cons a (ih hrest)

/-- The children of a tag that may close itself. -/
theorem lands_children (hs : ReadsSiblings ctx n s s') (tag : String) (selfClosing : Bool)
    (hc : c.At ctx.source) (hstart : start.Of ctx.source) (hn : c.rest.length < n) :
    Lands ctx.source 0 c (NodesWithin ctx.source)
      ((if selfClosing then return [] else childrenOf s tag start : TemplateReader (List Node)) ctx
        c)
      ((if selfClosing then return [] else childrenOf s' tag start : TemplateReader (List Node)) ctx
        c) := by
  split
  · exact lands_pure hc nofun
  · exact lands_childrenOf hs tag hc hstart hn

theorem lands_directive (hs : ReadsSiblings ctx n s s') (tag : String) {attributes : List Attribute}
    (hattributes : ∀ a ∈ attributes, a.span.Within ctx.source) (selfClosing : Bool)
    (hc : c.At ctx.source) (hstart : start.Of ctx.source) (hn : c.rest.length < n) :
    Lands ctx.source 0 c (fun node _ => node.Within ctx.source)
      (directive s tag attributes selfClosing start ctx c)
      (directive s' tag attributes selfClosing start ctx c) := by
  refine lands_here ?_
  have hchildren := lands_children hs tag selfClosing hc hstart hn
  have hbody : Reaches ctx.source 0 c _ (rawBody tag selfClosing start ctx c) :=
    lands_rawBody tag selfClosing hc hstart
  dsimp only
  generalize Tag.directiveName tag = directive
  split
  · refine hbody.next fun body c₁ hc₁ _ ⟨after, hafter, _⟩ => ?_
    refine (lands_statements hc hc₁ hafter).next fun ss c₂ hc₂ _ _ => ?_
    exact lands_node hc₂ hstart hattributes fun _ => ⟨rfl, nofun⟩
  · refine hbody.next fun body c₁ hc₁ _ _ => ?_
    exact lands_node hc₁ hstart hattributes fun _ => ⟨rfl, nofun⟩
  · refine hbody.next fun body c₁ hc₁ _ ⟨after, hafter, _⟩ => ?_
    refine (lands_scriptParts hc₁ (hc.stands hafter) (Nat.lt_succ_self _) (Nat.lt_succ_self _)).next
      fun parts c₂ hc₂ _ _ => ?_
    exact lands_node hc₂ hstart hattributes fun _ => ⟨rfl, nofun⟩
  · refine hchildren.next fun nodes c₁ hc₁ _ hnodes => ?_
    exact lands_node hc₁ hstart hattributes fun _ => ⟨rfl, hnodes⟩
  · refine hchildren.next fun nodes c₁ hc₁ _ hnodes => ?_
    exact lands_node hc₁ hstart hattributes fun _ => ⟨rfl, hnodes⟩
  · refine hchildren.next fun nodes c₁ hc₁ _ hnodes => ?_
    exact lands_node hc₁ hstart hattributes fun _ => ⟨rfl, hnodes⟩
  · refine hchildren.next fun nodes c₁ hc₁ _ hnodes => ?_
    generalize Attribute.literal? attributes "to" = signal
    generalize Attribute.literal? attributes "action" = action
    split
    · exact lands_node hc₁ hstart hattributes fun _ => ⟨rfl, hnodes⟩
    · exact lands_fail hstart (by decide) _
  · cases his : takeAttribute? "is" attributes with
    | none => exact lands_fail hstart (by decide) _
    | some found =>
      obtain ⟨is, others⟩ := found
      have hothers : ∀ a ∈ others, a.span.Within ctx.source := fun a ha =>
        hattributes a (takeAttribute?_subset his ha)
      dsimp only
      generalize is.value = value
      cases value with
      | literal | dynamic =>
        simp only [pure_bind]
        refine hchildren.next fun nodes c₁ hc₁ _ hnodes => ?_
        exact lands_spanFrom hc₁ hstart fun span hspan =>
          lands_pure hc₁ ⟨⟨hspan, hothers⟩, hnodes⟩
      | empty => exact lands_fail_bind hstart (by decide) _
  · exact lands_fail hstart (by decide) _

/-- A check may fail before what follows. -/
theorem lands_check {fault : TemplateFault} {p : Position} (hp : p.Of source)
    (hfault : fault ≠ .invalidExpression ∧ fault ≠ .invalidStatement) {detail : Option String}
    {fails : Bool} {next next' : Unit → TemplateReader α}
    (h : Lands source k c P (next () ctx c) (next' () ctx c)) :
    Lands source k c P ((if fails then fail fault p detail >>= next else next ()) ctx c)
      ((if fails then fail fault p detail >>= next' else next' ()) ctx c) := by
  split
  · exact lands_fail_bind hp hfault detail
  · exact h

/-- The end of a tag is read, if the tag has not closed itself. -/
theorem lands_tagEnd (selfClosing : Bool) (hc : c.At source) (hstart : start.Of source)
    {next next' : Unit → TemplateReader α}
    (h : ∀ c' : Cursor, c'.At source → c'.rest.length ≤ c.rest.length →
      Lands source 0 c' P (next () ctx c') (next' () ctx c')) :
    Lands source 0 c P
      ((if !selfClosing then eat ">" >>= fun closed =>
        if !closed then fail .unclosedTag start none >>= next else next () else next ()) ctx c)
      ((if !selfClosing then eat ">" >>= fun closed =>
        if !closed then fail .unclosedTag start none >>= next' else next' () else next' ()) ctx
          c) := by
  split
  · exact (lands_eat ">" hc).next fun closed c' hc' hlength _ =>
      lands_check hstart (by decide) (h c' hc' hlength)
  · exact h c hc (Nat.le_refl _)

/-- An element reads its first character before its content. -/
theorem lands_element (hs : ReadsSiblings ctx n s s') (top : Bool) (hc : c.At ctx.source)
    (hopen : atTagOpen c.rest = true) (hn : c.rest.length < n + 1) :
    Lands ctx.source 1 c (fun node _ => node.Within ctx.source) (element s top ctx c)
      (element s' top ctx c) := by
  obtain ⟨left, hleft⟩ : ∃ left, c.rest = "<".toList ++ left := by
    unfold atTagOpen at hopen
    split at hopen
    · next heq => exact ⟨_, heq⟩
    · cases hopen
  refine lands_here ?_
  have hstart := hc.position
  generalize c.position = start at *
  refine (lands_eat_front hc hleft).bind (k := 0) (fun _ c₁ hc₁ h₁ _ => ?_) (Nat.le_refl _)
  have h₁ : c₁.rest.length < n := Nat.lt_of_lt_of_le h₁ (Nat.le_of_lt_succ hn)
  refine (lands_takeWhile isTagChar hc₁).next fun tag c₂ hc₂ h₂ _ => ?_
  refine (lands_attributes hc₂).next fun attributes c₃ hc₃ h₃ hattributes => ?_
  refine (lands_eat "/>" hc₃).next fun selfClosing c₄ hc₄ h₄ _ => ?_
  refine lands_tagEnd selfClosing hc₄ hstart fun c₅ hc₅ h₅ => ?_
  have hchildren := lands_children hs (String.ofList tag) selfClosing hc₅ hstart (by omega)
  dsimp only
  generalize TagClass.ofTag (String.ofList tag) = cls
  cases cls with
  | root =>
    refine lands_check hstart (by decide) ?_
    refine hchildren.next fun nodes c₆ hc₆ _ hnodes => ?_
    exact lands_node hc₆ hstart hattributes fun _ => ⟨rfl, hnodes⟩
  | control => exact lands_fail hstart (by decide) _
  | directive => exact lands_directive hs _ hattributes selfClosing hc₅ hstart (by omega)
  | component =>
    refine hchildren.next fun nodes c₆ hc₆ _ hnodes => ?_
    exact lands_node hc₆ hstart hattributes fun _ => ⟨rfl, hnodes⟩
  | element =>
    dsimp only
    split
    · rw [pure_bind]
      exact lands_node hc₅ hstart hattributes fun _ => ⟨rfl, nofun⟩
    · refine hchildren.next fun nodes c₆ hc₆ _ hnodes => ?_
      exact lands_node hc₆ hstart hattributes fun _ => ⟨rfl, hnodes⟩

/-- Each further branch stands behind a control word. -/
theorem lands_branches (hs : ReadsSiblings ctx n s s') (reactive : Bool) (hc : c.At ctx.source)
    (hstart : start.Of ctx.source) {rounds rounds' : Nat} (hn : c.rest.length < n)
    (hrounds : c.rest.length < rounds) (hrounds' : c.rest.length < rounds')
    (predicate : Option DynamicExpr) (seenElse : Bool) :
    Lands ctx.source 0 c (fun bs _ => ∀ n ∈ bs.flatMap (·.2), n.Within ctx.source)
      (branches s reactive start rounds predicate seenElse ctx c)
      (branches s' reactive start rounds' predicate seenElse ctx c) := by
  induction rounds generalizing rounds' c predicate seenElse with
  | zero => exact absurd hrounds (Nat.not_lt_zero _)
  | succ rounds ih =>
    cases rounds' with
    | zero => exact absurd hrounds' (Nat.not_lt_zero _)
    | succ rounds' =>
      refine (hs c hc hn).next fun siblings c₁ hc₁ h₁ hwithin => ?_
      obtain ⟨nodes, stop⟩ := siblings
      have hnodes := Node.Within.arrange hwithin.nodes
      have hstop := hwithin.stop
      have hreads := hwithin.reads
      dsimp only at hnodes hstop hreads ⊢
      have hall (branch : Option DynamicExpr × List Node) (hbranch : ∀ n ∈ branch.2, n.Within
        ctx.source)
          (bs : List (Option DynamicExpr × List Node))
          (hbs : ∀ n ∈ bs.flatMap (·.2), n.Within ctx.source) :
          ∀ n ∈ (branch :: bs).flatMap (·.2), n.Within ctx.source := by
        rw [List.flatMap_cons]
        exact List.forall_mem_append.2 ⟨hbranch, hbs⟩
      split
      · have hreads := hreads.resolve_left nofun
        exact (ih hc₁ (by omega) (by omega) (by omega) _ _).next fun bs _ hc₂ _ hbs =>
          lands_pure hc₂ (hall _ hnodes bs hbs)
      · have hreads := hreads.resolve_left nofun
        exact (ih hc₁ (by omega) (by omega) (by omega) _ _).next fun bs _ hc₂ _ hbs =>
          lands_pure hc₂ (hall _ hnodes bs hbs)
      · exact lands_pure hc₁ (hall _ hnodes [] nofun)
      · exact lands_macroCloseError "if" hstop hstart

theorem splitUnquoted_parts {needle : Char} {quote : Option Char} {cs before after : List Char}
    (h : splitUnquoted needle quote cs = some (before, after)) : before <+: cs ∧ after <:+ cs := by
  have hskip {c : Char} {cs before after : List Char} {quote : Option Char}
      {f : List Char × List Char → List Char × List Char} (hf : ∀ p, f p = (c :: p.1, p.2))
      (ih : ∀ before after, splitUnquoted needle quote cs = some (before, after) →
        before <+: cs ∧ after <:+ cs)
      (h : (splitUnquoted needle quote cs).map f = some (before, after)) :
      before <+: c :: cs ∧ after <:+ c :: cs := by
    obtain ⟨⟨before', after'⟩, hcut, hpair⟩ := Option.map_eq_some_iff.1 h
    obtain ⟨rfl, rfl⟩ := Prod.mk.inj ((hf _).symm.trans hpair)
    obtain ⟨hbefore, hafter⟩ := ih before' after' hcut
    exact ⟨List.cons_prefix_cons.2 ⟨rfl, hbefore⟩, hafter.trans (List.suffix_cons ..)⟩
  induction cs generalizing quote before after with
  | nil => cases h
  | cons c cs ih =>
    unfold splitUnquoted at h
    dsimp only at h
    split at h
    · exact hskip (fun _ => rfl) (fun _ _ => ih) h
    · split at h
      · exact hskip (fun _ => rfl) (fun _ _ => ih) h
      · split at h
        · obtain ⟨rfl, rfl⟩ := Prod.mk.inj (Option.some.inj h)
          exact ⟨List.nil_prefix, List.suffix_cons ..⟩
        · exact hskip (fun _ => rfl) (fun _ _ => ih) h

theorem loopHead?_part {args rest : List Char} {var : String}
    (h : loopHead? args = some (var, rest)) : rest <:+: args := by
  unfold loopHead? at h
  rw [List.span_eq_takeWhile_dropWhile] at h
  dsimp only at h
  have hdrop := List.dropWhile_suffix (l := args) fun c => !Text.isBlank c
  generalize args.dropWhile (fun c => !Text.isBlank c) = tail at *
  split at h
  · cases h
  · next blank rest' =>
    have htrim := (Text.trimStart_suffix rest').trans (List.suffix_cons blank rest')
    generalize Text.trimStart rest' = trimmed at *
    split at h
    · split at h
      · obtain ⟨-, rfl⟩ := Prod.mk.inj (Option.some.inj h)
        exact ((((List.suffix_cons _ _).trans (List.suffix_cons _ _)).trans htrim).trans
          hdrop).isInfix
      · cases h
    · cases h

/-- A loop behind its head and its expressions. -/
def loopRest (siblings : TemplateReader Siblings) (var : String) (iterable : DynamicExpr)
    (identity : Option DynamicExpr) (start : Position) : TemplateReader Node := do
  let (body, stop) ← siblings
  let empty ← match stop with
    | .endMark "for" _ => pure none
    | .otherwise _ => do
      let (nodes, stop) ← siblings
      match stop with
      | .endMark "for" _ => pure (some (Node.arrange nodes))
      | other => macroCloseError "for" other start
    | other => macroCloseError "for" other start
  return .loop (← headerFrom "#for" start) var iterable identity (Node.arrange body) empty

theorem lands_loopRest (hs : ReadsSiblings ctx n s s') (var : String) (iterable : DynamicExpr)
    (identity : Option DynamicExpr) (hc : c.At ctx.source) (hstart : start.Of ctx.source)
    (hn : c.rest.length < n) :
    Lands ctx.source 0 c (fun node _ => node.Within ctx.source)
      (loopRest s var iterable identity start ctx c)
      (loopRest s' var iterable identity start ctx c) := by
  refine (hs c hc hn).next fun siblings c₁ hc₁ h₁ hwithin => ?_
  obtain ⟨nodes, stop⟩ := siblings
  have hnodes := Node.Within.arrange hwithin.nodes
  have hstop := hwithin.stop
  dsimp only at hnodes hstop ⊢
  have hloop (empty : Option (List Node)) (hempty : ∀ n ∈ empty.getD [], n.Within ctx.source)
      {c₂ : Cursor} (hc₂ : c₂.At ctx.source) :
      Reaches ctx.source 0 c₂ (fun node _ => node.Within ctx.source)
        ((headerFrom "#for" start >>= fun h =>
          pure (Node.loop h var iterable identity (Node.arrange nodes) empty)) ctx c₂) :=
    lands_node hc₂ hstart nofun fun _ => ⟨rfl, List.forall_mem_append.2 ⟨hnodes, hempty⟩⟩
  split
  · exact hloop none nofun hc₁
  · refine (hs c₁ hc₁ (by omega)).next fun siblings c₂ hc₂ _ hwithin => ?_
    obtain ⟨others, stop⟩ := siblings
    have hothers := Node.Within.arrange hwithin.nodes
    have hstop := hwithin.stop
    dsimp only at hothers hstop ⊢
    split
    · exact hloop (some _) hothers hc₂
    · exact lands_macroCloseError_bind "for" hstop hstart
  · exact lands_macroCloseError_bind "for" hstop hstart

theorem lands_loop (hs : ReadsSiblings ctx n s s') {args : List Char} (reactive : Bool)
    (hc : c.At ctx.source) (hstart : start.Of ctx.source)
    (hargs : Fits ctx.source (start.offset + 2) args) (hn : c.rest.length < n) :
    Lands ctx.source 0 c (fun node _ => node.Within ctx.source) (loop s args reactive start ctx c)
      (loop s' args reactive start ctx c) := by
  unfold loop
  cases hhead : loopHead? args with
  | none => exact lands_fail hstart (by decide) _
  | some head =>
    obtain ⟨var, rest⟩ := head
    have hrest := hargs.mono (loopHead?_part hhead)
    dsimp only
    cases hcut : splitUnquoted '#' none rest with
    | none =>
      refine (lands_expression hc (hrest.mono (Text.trim_part rest))).next fun e c₁ hc₁ h₁ _ => ?_
      exact lands_loopRest hs var _ none hc₁ hstart (by omega)
    | some cut =>
      obtain ⟨before, after⟩ := cut
      obtain ⟨hbefore, hafter⟩ := splitUnquoted_parts hcut
      refine (lands_expression hc (hrest.mono ((Text.trim_part before).trans hbefore.isInfix))).next
        fun e c₁ hc₁ h₁ _ => ?_
      refine (lands_expression hc₁ (hrest.mono ((Text.trim_part after).trans hafter.isInfix))).next
        fun e' c₂ hc₂ h₂ _ => ?_
      exact lands_loopRest hs var _ (some _) hc₂ hstart (by omega)

theorem lands_binding (hs : ReadsSiblings ctx n s s') {args : List Char} (reactive : Bool)
    (hc : c.At ctx.source) (hstart : start.Of ctx.source)
    (hargs : Fits ctx.source (start.offset + 2) args) (hn : c.rest.length < n) :
    Lands ctx.source 0 c (fun node _ => node.Within ctx.source)
      (binding s args reactive start ctx c)
      (binding s' args reactive start ctx c) := by
  unfold binding
  dsimp only
  cases hcut : Text.splitAt? [':', '='] args with
  | none => exact lands_fail hstart (by decide) _
  | some cut =>
    obtain ⟨name, value⟩ := cut
    dsimp only
    split
    · exact lands_fail hstart (by decide) _
    · have hvalue := hargs.mono ((Text.trim_part value).trans (Text.splitAt?_rest hcut).isInfix)
      refine (lands_expression hc hvalue).next fun e c₁ hc₁ h₁ _ => ?_
      refine (hs c₁ hc₁ (by omega)).next fun siblings c₂ hc₂ _ hwithin => ?_
      obtain ⟨nodes, stop⟩ := siblings
      have hnodes := Node.Within.arrange hwithin.nodes
      have hstop := hwithin.stop
      dsimp only at hnodes hstop ⊢
      split
      · exact lands_node hc₂ hstart nofun fun _ => ⟨rfl, hnodes⟩
      · exact lands_macroCloseError "set" hstop hstart

/-- What is read at the front. A node, or something that leaves none, reads a character, and so does
what ends siblings, unless it is the end. -/
def ItemWithin (source : List Char) (c : Cursor) (item : Item) (c' : Cursor) : Prop :=
  match item with
  | .node n => n.Within source ∧ c'.rest.length < c.rest.length
  | .nothing => c'.rest.length < c.rest.length
  | .stop stop => stop.Within source ∧ (stop = .eof ∨ c'.rest.length < c.rest.length)

/-- A node without attributes was read. -/
theorem lands_nodeItem {tag : String} {make : Header → Node} {c' : Cursor} (hc' : c'.At source)
    (hstart : start.Of source)
    (hmake : ∀ h, (make h).header = h ∧ ∀ m ∈ (make h).inner, m.Within source)
    (hread : c'.rest.length < c.rest.length) :
    Reaches source 0 c' (ItemWithin source c)
      ((headerFrom tag start >>= fun h => pure (.node (make h))) ctx c') :=
  (lands_headerFrom tag hc' hstart).next fun h _ hc₁ h₁ hh =>
    lands_pure hc₁ ⟨⟨by rwa [(hmake h).1], (hmake h).2⟩, by omega⟩

/-- What stands in double braces, without its mark. -/
def mustacheBody (siblings : TemplateReader Siblings) (reactive : Bool) (body : List Char)
    (start : Position) : TemplateReader Item := do
  match body with
  | '/' :: name => return .stop (.endMark (String.ofList (Text.trim name)) start)
  | '#' :: tail =>
    let (keyword, args) := tail.span (!Text.isBlank ·)
    let args := Text.trim args
    let condition : TemplateReader DynamicExpr := do
      let e ← expression args (start.offset + 2)
      return .of e reactive (String.ofList args)
    match String.ofList keyword with
    | "if" =>
      let first ← condition
      let rounds := (← rest).length + 1
      let bs ← branches siblings reactive start rounds (some first) false
      return .node (.choice (← headerFrom "#if" start) reactive bs)
    | "elif" => return .stop (.elseIf (← condition) start)
    | "else" => return .stop (.otherwise start)
    | "for" => return .node (← loop siblings args reactive start)
    | "set" => return .node (← binding siblings args reactive start)
    | other => fail .unknownMacro start (some other)
  | _ =>
    let e ← expression body (start.offset + 2)
    let expr := DynamicExpr.of e reactive (String.ofList body)
    return .node (.dynamicText (← headerFrom "@macro" start) expr)

theorem lands_mustacheBody (hs : ReadsSiblings ctx n s s') (reactive : Bool) {body : List Char}
    (hc : c.At ctx.source) {c' : Cursor} (hc' : c'.At ctx.source)
    (hbody : Fits ctx.source (c.position.offset + 2) body)
    (hread : c'.rest.length < c.rest.length) (hn : c'.rest.length < n) :
    Lands ctx.source 0 c' (ItemWithin ctx.source c)
      (mustacheBody s reactive body c.position ctx c')
      (mustacheBody s' reactive body c.position ctx c') := by
  have hstart := hc.position
  have hitem {m m' : TemplateReader Node} (h : Lands ctx.source 0 c'
    (fun node _ => node.Within ctx.source)
      (m ctx c') (m' ctx c')) : Lands ctx.source 0 c' (ItemWithin ctx.source c)
        ((m >>= fun node => pure (.node node)) ctx c') ((m' >>= fun node => pure (.node node)) ctx
          c') :=
    h.next fun _ c₁ hc₁ h₁ hnode => lands_pure hc₁ ⟨hnode, by omega⟩
  unfold mustacheBody
  split
  · exact lands_pure hc' ⟨hstart, .inr hread⟩
  · next tail =>
    have hargs : Fits ctx.source (c.position.offset + 2) (Text.trim
      (tail.span (!Text.isBlank ·)).2) := by
      rw [List.span_eq_takeWhile_dropWhile]
      exact hbody.mono ((Text.trim_part _).trans
        ((List.dropWhile_suffix _).trans (List.suffix_cons '#' tail)).isInfix)
    dsimp only
    generalize String.ofList (tail.span (!Text.isBlank ·)).1 = keyword
    generalize Text.trim (tail.span (!Text.isBlank ·)).2 = args at *
    have hcondition : Reaches ctx.source 0 c' (fun _ c'' => c'' = c')
        ((expression args (c.position.offset + 2) >>= fun e =>
          pure (DynamicExpr.of e reactive (String.ofList args))) ctx c') :=
      (lands_expression hc' hargs).next fun e _ hc₁ _ hsame => lands_pure hc₁ hsame
    split
    · refine hcondition.next fun first c₁ hc₁ _ hsame => ?_
      obtain rfl := hsame
      refine lands_rest ?_
      refine (lands_branches hs reactive hc₁ hstart hn (Nat.lt_succ_self _) (Nat.lt_succ_self _) _
        _).next fun bs c₂ hc₂ h₂ hbs => ?_
      exact lands_nodeItem hc₂ hstart (fun _ => ⟨rfl, hbs⟩) (by omega)
    · exact hcondition.next fun _ c₁ hc₁ h₁ _ =>
        lands_pure hc₁ ⟨hstart, .inr (by omega)⟩
    · exact lands_pure hc' ⟨hstart, .inr hread⟩
    · exact hitem (lands_loop hs reactive hc' hstart hargs hn)
    · exact hitem (lands_binding hs reactive hc' hstart hargs hn)
    · exact lands_fail hstart (by decide) _
  · refine (lands_expression hc' hbody).next fun e c₁ hc₁ h₁ _ => ?_
    exact lands_nodeItem hc₁ hstart (fun _ => ⟨rfl, nofun⟩) (by omega)

theorem lands_mustacheItem (hs : ReadsSiblings ctx n s s') (hc : c.At ctx.source)
    {left : List Char} (hleft : c.rest = "\x7b\x7b".toList ++ left) (hn : c.rest.length < n + 1) :
    Lands ctx.source 0 c (ItemWithin ctx.source c) (mustacheItem s ctx c) (mustacheItem s' ctx c) :=
      by
  refine lands_here ?_
  have hstart := hc.position
  refine (lands_eat_front hc hleft).next fun _ c₁ hc₁ h₁ hrest => ?_
  refine (lands_takeThrough? _ hc₁).next fun content c₂ hc₂ h₂ hcontent => ?_
  cases content with
  | none => exact lands_fail hstart (by decide) _
  | some content =>
    have hcontent := hcontent content rfl
    have hfits : Fits ctx.source (c.position.offset + 2) content := by
      rw [← hrest, hcontent, ← List.append_assoc] at hleft
      exact (hc.stands hleft).right.fits
    have hread : c₂.rest.length < c.rest.length := by
      have hbraces : "\x7b\x7b".toList.length = 2 := rfl
      omega
    have htrim := hfits.mono (Text.trim_part content)
    have hn : c₂.rest.length < n := by omega
    dsimp only
    generalize Text.trim content = trimmed at *
    split
    · next tail =>
      have htail := (Text.trimStart_suffix tail).trans (List.suffix_cons '!' tail)
      exact lands_mustacheBody hs true hc hc₂ (htrim.mono htail.isInfix) hread hn
    · exact lands_mustacheBody hs false hc hc₂ htrim hread hn

theorem splitText_append (cs : List Char) : (splitText cs).1 ++ (splitText cs).2 = cs := by
  induction cs with
  | nil => rfl
  | cons c cs ih =>
    rw [splitText]
    split
    · rfl
    · exact congrArg (c :: ·) ih

/-- Text reads at least one character. -/
theorem lands_textItem (hc : c.At source) {d : Char} {left : List Char} (hleft : c.rest = d :: left)
    :
    Reaches source 0 c (ItemWithin source c) (textItem ctx c) := by
  refine lands_here (lands_rest ?_)
  have hstart := hc.position
  have hsplit : c.rest = (d :: (splitText left).1) ++ (splitText left).2 := by
    rw [hleft, List.cons_append, splitText_append]
  rw [hleft]
  dsimp only
  generalize (splitText left).1 = text at *
  generalize (splitText left).2 = rest at *
  refine (lands_skipOver hc hsplit).next fun _ c₁ hc₁ h₁ _ => ?_
  have hread : c₁.rest.length < c.rest.length := by
    rw [List.length_cons] at h₁
    omega
  refine lands_read ?_
  split
  · exact lands_pure hc₁ hread
  · exact lands_nodeItem hc₁ hstart (fun _ => ⟨rfl, nofun⟩) hread

theorem lands_commentItem (hc : c.At source) :
    Reaches source 0 c (ItemWithin source c) (commentItem ctx c) := by
  refine lands_here ?_
  refine (lands_takeThrough? "-->" hc).next fun comment c₁ hc₁ _ hcomment => ?_
  cases comment with
  | none => exact lands_fail hc.position (by decide) _
  | some comment =>
    have hsplit := congrArg List.length (hcomment comment rfl)
    have hmark : "-->".toList.length = 3 := rfl
    simp only [List.length_append] at hsplit
    exact lands_pure hc₁ (show c₁.rest.length < c.rest.length by omega)

theorem lands_closeTagItem (hc : c.At source) {left : List Char}
    (hleft : c.rest = "</".toList ++ left) :
    Reaches source 0 c (ItemWithin source c) (closeTagItem ctx c) := by
  refine lands_here ?_
  refine (lands_eat_front hc hleft).next fun _ c₁ hc₁ h₁ _ => ?_
  refine (lands_takeWhile isTagChar hc₁).next fun tag c₂ hc₂ h₂ _ => ?_
  refine (lands_skipBlanks hc₂).next fun _ c₃ hc₃ h₃ _ => ?_
  refine (lands_eat ">" hc₃).next fun closed c₄ hc₄ h₄ _ => ?_
  have hlength : "</".toList.length = 2 := rfl
  split
  · exact lands_pure hc₄ ⟨hc.position, .inr (by omega)⟩
  · exact lands_fail hc.position (by decide) _

/-- What is at the front is read, whatever reads the content of what is nested. -/
theorem lands_item (hs : ReadsSiblings ctx n s s') (top : Bool) (hc : c.At ctx.source)
    (hn : c.rest.length < n + 1) :
    Lands ctx.source 0 c (ItemWithin ctx.source c) (item s top ctx c) (item s' top ctx c) := by
  refine lands_rest ?_
  generalize hleft : c.rest = left
  split
  · exact lands_pure hc ⟨trivial, .inl rfl⟩
  · exact lands_commentItem hc
  · exact lands_closeTagItem hc hleft
  · exact lands_mustacheItem hs hc hleft hn
  · split
    · next hopen =>
      exact (lands_element hs top hc (by rw [hleft]; exact hopen) hn).next fun node c₁ hc₁ h₁
        hnode => lands_pure hc₁ ⟨hnode, h₁⟩
    · cases left with
      | nil => contradiction
      | cons d left => exact lands_textItem hc hleft

/-- Reading siblings reads something in each step but the last, so that more steps than there are
characters change nothing. -/
theorem readsSiblings_nodesAt {steps steps' : Nat} (hsteps : n ≤ steps) (hsteps' : n ≤ steps')
    (top : Bool) : ReadsSiblings ctx n (nodesAt steps top) (nodesAt steps' top) := by
  induction n generalizing steps steps' top with
  | zero => exact fun _ _ hn => absurd hn (Nat.not_lt_zero _)
  | succ n ih =>
    cases steps with
    | zero => exact absurd hsteps (Nat.not_succ_le_zero n)
    | succ steps =>
      cases steps' with
      | zero => exact absurd hsteps' (Nat.not_succ_le_zero n)
      | succ steps' =>
        intro c hc hn
        have hnext := ih (Nat.le_of_succ_le_succ hsteps) (Nat.le_of_succ_le_succ hsteps')
        refine (lands_item (hnext false) top hc hn).next fun item c₁ hc₁ h₁ hitem => ?_
        cases item with
        | stop stop => exact lands_pure hc₁ ⟨nofun, hitem.1, hitem.2⟩
        | nothing =>
          have hread : c₁.rest.length < c.rest.length := hitem
          refine (hnext top c₁ hc₁ (by omega)).mono (Nat.le_refl _) fun siblings c₂ _ h₂ hwithin =>
            ?_
          exact ⟨hwithin.nodes, hwithin.stop, hwithin.reads.imp_right fun h => by omega⟩
        | node node =>
          obtain ⟨hnode, hread⟩ := hitem
          refine (hnext top c₁ hc₁ (by omega)).next fun siblings c₂ hc₂ h₂ hwithin => ?_
          exact lands_pure hc₂ ⟨List.forall_mem_cons.2 ⟨hnode, hwithin.nodes⟩, hwithin.stop,
            hwithin.reads.imp_right fun h => by omega⟩

/-- A whole template is read like the siblings in it. -/
theorem lands_template (hc : c.At ctx.source) :
    Reaches ctx.source 0 c (fun node _ => node.Within ctx.source) (template ctx c) := by
  refine lands_rest ?_
  refine (readsSiblings_nodesAt (Nat.le_refl _) (Nat.le_refl _) true c hc (Nat.lt_succ_self _)).next
    fun siblings c₁ hc₁ _ hwithin => ?_
  obtain ⟨nodes, stop⟩ := siblings
  have hnodes := hwithin.nodes
  have hstop := hwithin.stop
  dsimp only at hnodes hstop ⊢
  cases stop with
  | eof =>
    dsimp only
    cases hroot : nodes.find? Node.isRoot with
    | none =>
      dsimp only
      refine lands_read (lands_spanFrom hc₁ ⟨[], List.nil_prefix, rfl⟩ fun span hspan => ?_)
      exact lands_pure hc₁ ⟨⟨hspan, nofun⟩, Node.Within.arrange hnodes⟩
    | some root =>
      have hinside := hnodes root (List.mem_of_find?_eq_some hroot)
      rcases nodes with _ | ⟨first, _ | ⟨second, others⟩⟩
      · cases hroot
      · exact lands_pure hc₁ hinside
      · obtain ⟨hheader, -⟩ := hinside
        exact lands_fail hheader.span.start (by decide) _
  | closeTag name place => exact lands_fail_bind hstop (by decide) _
  | elseIf _ place => exact lands_fail_bind hstop (by decide) _
  | otherwise place => exact lands_fail_bind hstop (by decide) _
  | endMark name place => exact lands_fail_bind hstop (by decide) _

theorem at_start (source : List Char) : Cursor.At source ⟨source, .start⟩ := ⟨[], rfl, rfl⟩

end TemplateReader

/-- Reading a template ends with a tree that lies in the source, or with an error that does. -/
theorem parseTemplate_within (source : String) (options : ParserOptions) :
    (∀ node, parseTemplate source options = .ok node → node.Within source.toList) ∧
      ∀ e, parseTemplate source options = .error e → e.Within source.toList := by
  have hreaches := @TemplateReader.lands_template ⟨source.toList, options⟩ ⟨source.toList, .start⟩
    (TemplateReader.at_start source.toList)
  unfold parseTemplate
  dsimp only at hreaches ⊢
  cases hread : TemplateReader.template ⟨source.toList, options⟩ ⟨source.toList, .start⟩ with
  | error e =>
    refine ⟨nofun, fun e' he => ?_⟩
    obtain rfl := Except.error.inj he
    exact hreaches.stop hread
  | ok read =>
    refine ⟨fun node hnode => ?_, nofun⟩
    obtain rfl := Except.ok.inj hnode
    exact (hreaches.done hread).2.2

/-- Reading ends by itself and never leaves its source. Scanning, the nesting of expressions and
blocks, the statements of a block and the nodes of a template are bounded in the text of the
  readers,
and every larger bound gives the same result, since each round reads something. The errors, the
tokens and the nodes stand at places of the source that cut no character, on lines that it has. A
broken escape is reported only if a backslash stands before a character that is not ASCII. -/
theorem reading_stays_within (source : String) (options : ParserOptions) :
    -- what is read, and where reading fails
    (∀ e, parseExpression source = .error e → e.Within source.toList) ∧
    (∀ e, parseStatements source = .error e → e.Within source.toList) ∧
    (∀ e, parseTemplate source options = .error e → e.Within source.toList) ∧
    (∀ node, parseTemplate source options = .ok node → node.Within source.toList) ∧
    -- scanning
    (∀ statements steps, source.toList.length ≤ steps →
      Token.scanFrom statements steps ⟨0, 1, 0⟩ source.toList = Token.scan statements source) ∧
    (∀ statements list, Token.scan statements source = .ok list → list.Within source.toList) ∧
    -- parsing the tokens
    (∀ (ts : List Token) (depth : Nat), ts.length < depth →
      Parser.expressionAt depth ts = Parser.expression ts) ∧
    (∀ (ts : List Token) (endLine rounds depth : Nat), ts.length < rounds → ts.length ≤ depth →
      Parser.statementsWithin endLine rounds depth ts =
        Parser.statementsWithin endLine (ts.length + 1) (ts.length + 1) ts) ∧
    -- reading attributes and nodes, wherever in the source a reader stands
    ∀ (c : TemplateReader.Cursor) (steps : Nat), c.At source.toList → c.rest.length < steps →
      TemplateReader.attributesAt steps ⟨source.toList, options⟩ c =
        TemplateReader.attributes ⟨source.toList, options⟩ c ∧
      ∀ top, TemplateReader.nodesAt steps top ⟨source.toList, options⟩ c =
        TemplateReader.nodesAt (c.rest.length + 1) top ⟨source.toList, options⟩ c := by
  obtain ⟨hnode, herror⟩ := parseTemplate_within source options
  refine ⟨fun e => parseExpression_within, fun e => parseStatements_within, herror, hnode, ?_, ?_,
    ?_,
    ?_, ?_⟩
  · intro statements steps hsteps
    exact (Token.scanFrom_scans statements (Token.at_start source.toList) hsteps (Nat.le_refl _)).1
  · intro statements list hlist
    have hscans := Token.scan_scans statements source
    rwa [hlist] at hscans
  · exact fun ts depth hdepth => Parser.expressionAt_eq hdepth
  · intro ts endLine rounds depth hrounds hdepth
    exact (Parser.reads_statementsWithin endLine hrounds (Nat.lt_succ_self _) hdepth
      (Nat.le_succ _)).same
  · intro c steps hc hsteps
    let ctx : TemplateReader.Context := ⟨source.toList, options⟩
    have hc : c.At ctx.source := hc
    refine ⟨(TemplateReader.lands_attributesAt hc hsteps (Nat.lt_succ_self _)).same, fun top => ?_⟩
    exact (TemplateReader.readsSiblings_nodesAt hsteps (Nat.le_refl _) top c hc
      (Nat.lt_succ_self _)).same

end ReactiveView

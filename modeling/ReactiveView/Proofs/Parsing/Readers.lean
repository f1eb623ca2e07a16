import ReactiveView.Proofs.Parsing.Statements
import ReactiveView.Template.Parser

/-!
# Readers of a template stay in its source

A reader of a template leaves a cursor whose position counts what was read from the start of the
source, and fails with an error that lies in the source. As for the parsers, this is said of two
readers at once that may differ in the bounds of their loops (`TemplateReader.Lands`), so that it
also says that the bounds decide nothing. This module has the steps that all readers are made of,
the expressions in the source, and the attributes.
-/

namespace ReactiveView

open Text (Boundary BrokenEscape Fits Located Stands byteLength lineCount)

/-- Texts that start differently differ. -/
theorem append_ne_of_head {s t : String} (x y : String)
    (h : s.toList.head?.any fun c => t.toList.head? != some c) : s ++ x ++ y ≠ t := by
  rintro rfl
  rw [String.toList_append, String.toList_append, List.append_assoc] at h
  cases hs : s.toList with
  | nil => simp [hs] at h
  | cons c cs => simp [hs] at h

/-- No other cause has the message of a broken escape. -/
theorem SyntaxCause.eq_brokenEscape {cause : SyntaxCause}
    (h : cause.message = SyntaxCause.brokenEscape.message) : cause = .brokenEscape := by
  cases cause with
  | brokenEscape => rfl
  | unexpectedCharacter | expectedMark | reservedTarget | unexpectedKeyword | unexpectedMark =>
    exact absurd h (append_ne_of_head _ _ (by decide))
  | _ => exact absurd h (by decide)

/-- An error whose place is one of its source. Only an error inside an expression may be placed
between two characters' bytes: its offset is counted from the braces, and the expression is
trimmed. -/
structure TemplateError.Within (source : List Char) (e : TemplateError) : Prop where
  /-- Lines are counted from one. -/
  line_pos : 1 ≤ e.position.line
  /-- The line is not behind the last. -/
  line_le : e.position.line ≤ lineCount source
  /-- The offset is not behind the end. -/
  offset_le : e.position.offset ≤ byteLength source
  /-- The offset cuts no character. -/
  boundary : e.fault ≠ .invalidExpression → Boundary source e.position.offset
  /-- A broken escape is there. -/
  escape : e.fault = .invalidExpression ∨ e.fault = .invalidStatement →
    e.detail = some SyntaxCause.brokenEscape.message → BrokenEscape source

/-- A stretch between two places of its source. -/
structure Span.Within (source : List Char) (s : Span) : Prop where
  /-- The start is a place. -/
  start : s.start.Of source
  /-- The end is a place. -/
  stop : s.stop.Of source

/-- A header whose stretches lie in the source. -/
structure Header.Within (source : List Char) (h : Header) : Prop where
  /-- The node's own. -/
  span : h.span.Within source
  /-- Those of the attributes. -/
  attributes : ∀ a ∈ h.attributes, a.span.Within source

namespace Node

/-- All nodes directly inside a node: children, those of the branches, those of the empty case. -/
def inner : Node → List Node
  | choice _ _ branches => branches.flatMap (·.2)
  | loop _ _ _ _ cs empty => cs ++ empty.getD []
  | n => n.children

/-- A node that lies in the source with all that is inside it. -/
inductive Within (source : List Char) : Node → Prop where
  /-- Its header does, and the nodes inside do. -/
  | intro {n : Node} (header : n.header.Within source) (inner : ∀ m ∈ n.inner, Within source m) :
    Within source n

theorem Within.withIndex {source : List Char} {n : Node} (h : n.Within source) (index : Nat) :
    (n.withIndex index).Within source := by
  obtain ⟨⟨hspan, hattributes⟩, hinner⟩ := h
  cases n <;> exact ⟨⟨hspan, hattributes⟩, hinner⟩

theorem Within.arrange {source : List Char} {nodes : List Node}
    (h : ∀ n ∈ nodes, n.Within source) : ∀ n ∈ Node.arrange nodes, n.Within source := by
  intro n hn
  obtain ⟨i, hi, rfl⟩ := List.mem_mapIdx.1 hn
  refine (h _ ?_).withIndex i
  have hmem := List.getElem_mem hi
  rw [List.mem_append] at hmem
  exact hmem.elim (fun h => (List.mem_filter.1 h).1) fun h => (List.mem_filter.1 h).1

end Node

namespace TemplateReader

variable {α β : Type} {ctx : Context} {c c' : Cursor} {j k n : Nat}

/-- A cursor that stands in a source where its position says. -/
def Cursor.At (source : List Char) (c : Cursor) : Prop :=
  ∃ before, source = before ++ c.rest ∧ c.position = Position.start.after before

namespace Cursor.At

variable {source : List Char}

theorem position (h : c.At source) : c.position.Of source := by
  obtain ⟨before, rfl, hposition⟩ := h
  exact ⟨before, List.prefix_append .., hposition⟩

theorem skip (h : c.At source) {cs rest : List Char} (hrest : c.rest = cs ++ rest) :
    Cursor.At source ⟨rest, c.position.after cs⟩ := by
  obtain ⟨before, rfl, hposition⟩ := h
  refine ⟨before ++ cs, by rw [hrest, List.append_assoc], ?_⟩
  rw [hposition, Position.after_append]

theorem stands (h : c.At source) {part rest : List Char} (hrest : c.rest = part ++ rest) :
    Stands source c.position.offset part := by
  obtain ⟨before, rfl, hposition⟩ := h
  refine ⟨before, rest, by rw [hrest], ?_⟩
  rw [hposition, Position.offset_after_start]

/-- A cursor behind a part of what another one has left stands behind the end of the part. -/
theorem offset_behind {c' : Cursor} (h : c.At source) (h' : c'.At source) {part after : List Char}
    (hrest : c.rest = part ++ after) (hafter : c'.rest <:+ after) :
    c.position.offset + Text.byteLength part ≤ c'.position.offset := by
  obtain ⟨before, hsource, hposition⟩ := h
  obtain ⟨before', hsource', hposition'⟩ := h'
  obtain ⟨between, rfl⟩ := hafter
  have hbefore : before ++ part ++ between = before' := by
    rw [hrest, ← List.append_assoc, ← List.append_assoc] at hsource
    exact List.append_cancel_right (hsource.symm.trans hsource')
  rw [hposition, hposition', Position.offset_after_start, Position.offset_after_start, ← hbefore,
    Text.byteLength_append, Text.byteLength_append]
  exact Nat.le_add_right ..

end Cursor.At

/-- What two readers come to at a cursor of a source, the first in `r` and the second in `r'`: they
do the same, and they leave a cursor of the source, with at least `k` characters read and `P` true
of what they give, or fail with an error that lies in the source. -/
structure Lands (source : List Char) (k : Nat) (c : Cursor) (P : α → Cursor → Prop)
    (r r' : Except TemplateError (α × Cursor)) : Prop where
  /-- They do the same. -/
  same : r = r'
  /-- What they leave and give. -/
  done : ∀ {a c'}, r = .ok (a, c') → c'.At source ∧ c'.rest.length + k ≤ c.rest.length ∧ P a c'
  /-- How they fail. -/
  stop : ∀ {e}, r = .error e → e.Within source

/-- What one reader comes to. -/
abbrev Reaches (source : List Char) (k : Nat) (c : Cursor) (P : α → Cursor → Prop)
    (r : Except TemplateError (α × Cursor)) : Prop := Lands source k c P r r

variable {source : List Char} {P : α → Cursor → Prop} {Q : β → Cursor → Prop}

theorem lands_pure {a : α} (hc : c.At source) (ha : P a c) :
    Reaches source 0 c P (.ok (a, c)) where
  same := rfl
  done h := by
    obtain ⟨rfl, rfl⟩ := Prod.mk.inj (Except.ok.inj h)
    exact ⟨hc, Nat.le_refl _, ha⟩
  stop := nofun

/-- One thing is read, and then another. -/
theorem Lands.bind {m m' : TemplateReader α} {f f' : α → TemplateReader β}
    (h : Lands source j c P (m ctx c) (m' ctx c))
    (hf : ∀ a c', c'.At source → c'.rest.length + j ≤ c.rest.length → P a c' →
      Lands source k c' Q (f a ctx c') (f' a ctx c')) (hn : n ≤ j + k) :
    Lands source n c Q ((m >>= f) ctx c) ((m' >>= f') ctx c) := by
  have hbind (m : TemplateReader α) (f : α → TemplateReader β) : (m >>= f) ctx c =
      (m ctx c).bind fun (a, c') => f a ctx c' := rfl
  rw [hbind, hbind, ← h.same]
  cases hm : m ctx c with
  | error e => exact ⟨rfl, nofun, fun he => Except.error.inj he ▸ h.stop hm⟩
  | ok read =>
    obtain ⟨a, c'⟩ := read
    obtain ⟨hat, hlength, ha⟩ := h.done hm
    have hnext := hf a c' hat hlength ha
    refine ⟨hnext.same, fun hr => ?_, hnext.stop⟩
    obtain ⟨hat', hlength', hb⟩ := hnext.done hr
    exact ⟨hat', by omega, hb⟩

theorem Lands.next {m m' : TemplateReader α} {f f' : α → TemplateReader β}
    (h : Lands source j c P (m ctx c) (m' ctx c))
    (hf : ∀ a c', c'.At source → c'.rest.length + j ≤ c.rest.length → P a c' →
      Lands source 0 c' Q (f a ctx c') (f' a ctx c')) :
    Lands source 0 c Q ((m >>= f) ctx c) ((m' >>= f') ctx c) := h.bind hf (Nat.zero_le _)

/-- Less is said. -/
theorem Lands.mono {P' : α → Cursor → Prop} {r r' : Except TemplateError (α × Cursor)}
    (h : Lands source k c P r r') (hn : n ≤ k)
    (hP : ∀ a c', c'.At source → c'.rest.length + k ≤ c.rest.length → P a c' → P' a c') :
    Lands source n c P' r r' where
  same := h.same
  done hr := by
    obtain ⟨hat, hlength, ha⟩ := h.done hr
    exact ⟨hat, by omega, hP _ _ hat hlength ha⟩
  stop := h.stop

/-! ## Failures -/

/-- A failure at a place of the source. -/
theorem lands_fail {fault : TemplateFault} {p : Position} (hp : p.Of source)
    (hfault : fault ≠ .invalidExpression ∧ fault ≠ .invalidStatement) (detail : Option String) :
    Reaches source k c P (fail fault p detail ctx c) where
  same := rfl
  done := nofun
  stop h := by
    obtain rfl := Except.error.inj h
    exact ⟨hp.located.line_pos, hp.located.line_le, hp.located.boundary.le,
      fun _ => hp.located.boundary, fun h => h.elim (absurd · hfault.1) (absurd · hfault.2)⟩

theorem lands_fail_bind {fault : TemplateFault} {p : Position} (hp : p.Of source)
    (hfault : fault ≠ .invalidExpression ∧ fault ≠ .invalidStatement) (detail : Option String)
    {f f' : α → TemplateReader β} :
    Lands source k c Q ((fail fault p detail >>= f) ctx c) ((fail fault p detail >>= f') ctx c) :=
  (lands_fail (k := k) (P := fun _ _ => False) hp hfault detail).bind (k := 0)
    (fun _ _ _ _ h => h.elim) (Nat.le_refl _)

/-- A failure at an offset of the source. -/
theorem lands_failAt {fault : TemplateFault} {offset : Nat} {detail : Option String}
    (hoffset : offset ≤ byteLength ctx.source)
    (hboundary : fault ≠ .invalidExpression → Boundary ctx.source offset)
    (hescape : fault = .invalidExpression ∨ fault = .invalidStatement →
      detail = some SyntaxCause.brokenEscape.message → BrokenEscape ctx.source) :
    Reaches ctx.source k c P (failAt fault offset detail ctx c) where
  same := rfl
  done := nofun
  stop h := by
    obtain rfl := Except.error.inj h
    obtain ⟨hpos, hle⟩ := Position.line_ofOffset ctx.source offset
    refine ⟨hpos, hle, ?_, fun h => ?_, hescape⟩
    · rwa [Position.offset_ofOffset]
    · rw [Position.offset_ofOffset]
      exact hboundary h

/-! ## Steps -/

/-- Where the reader stands, it looks at what is left. -/
theorem lands_rest {f f' : List Char → TemplateReader α}
    (h : Lands source k c P (f c.rest ctx c) (f' c.rest ctx c)) :
    Lands source k c P ((rest >>= f) ctx c) ((rest >>= f') ctx c) := h

/-- The reader looks at what stays the same. -/
theorem lands_read {f f' : Context → TemplateReader α}
    (h : Lands source k c P (f ctx ctx c) (f' ctx ctx c)) :
    Lands source k c P ((read >>= f) ctx c) ((read >>= f') ctx c) := h

/-- Where the reader stands, it looks at its position. -/
theorem lands_here {f f' : Position → TemplateReader α}
    (h : Lands source k c P (f c.position ctx c) (f' c.position ctx c)) :
    Lands source k c P ((here >>= f) ctx c) ((here >>= f') ctx c) := h

/-- The stretch up to where the reader stands. -/
theorem lands_spanFrom {start : Position} {f f' : Span → TemplateReader α} (hc : c.At source)
    (hstart : start.Of source)
    (h : ∀ span : Span, span.Within source → Lands source k c P (f span ctx c) (f' span ctx c)) :
    Lands source k c P ((spanFrom start >>= f) ctx c) ((spanFrom start >>= f') ctx c) :=
  h ⟨start, c.position⟩ ⟨hstart, hc.position⟩

/-- Characters at the front are stepped over. -/
theorem lands_skipOver {cs rest : List Char} (hc : c.At source) (hrest : c.rest = cs ++ rest) :
    Reaches source cs.length c (fun _ c' => c'.rest = rest) (skipOver cs rest ctx c) where
  same := rfl
  done h := by
    obtain ⟨-, rfl⟩ := Prod.mk.inj (Except.ok.inj h)
    refine ⟨hc.skip hrest, ?_, rfl⟩
    rw [hrest, List.length_append, Nat.add_comm]
  stop := nofun

/-- Reading characters takes as many from what is left. -/
theorem lands_takeWhile (p : Char → Bool) (hc : c.At source) :
    Reaches source 0 c (fun taken c' => c.rest = taken ++ c'.rest) (takeWhile p ctx c) := by
  have hsplit : c.rest = c.rest.takeWhile p ++ c.rest.dropWhile p :=
    List.takeWhile_append_dropWhile.symm
  refine lands_rest ?_
  rw [List.span_eq_takeWhile_dropWhile]
  exact (lands_skipOver hc hsplit).next fun _ c' hc' _ hrest =>
    lands_pure hc' (by rw [hrest]; exact hsplit)

theorem lands_skipBlanks (hc : c.At source) :
    Reaches source 0 c (fun _ _ => True) (skipBlanks ctx c) :=
  (lands_takeWhile Text.isAsciiBlank hc).next fun _ _ hc' _ _ => lands_pure hc' trivial

/-- A start is stepped over if it is there. -/
theorem lands_eat (start : String) (hc : c.At source) :
    Reaches source 0 c (fun eaten c' => if eaten then c.rest = start.toList ++ c'.rest
      else c' = c ∧ Text.dropPrefix? start.toList c.rest = none) (eat start ctx c) := by
  refine lands_rest ?_
  cases heq : Text.dropPrefix? start.toList c.rest with
  | none => exact lands_pure hc ⟨rfl, rfl⟩
  | some rest =>
    have hrest := Text.append_of_dropPrefix? heq
    exact (lands_skipOver hc hrest).next fun _ c' hc' _ hleft =>
      lands_pure hc' (by rw [hleft]; exact hrest)

theorem lands_eat_front {start : String} {rest : List Char} (hc : c.At source)
    (hrest : c.rest = start.toList ++ rest) :
    Reaches source start.toList.length c (fun _ c' => c'.rest = rest) (eat start ctx c) := by
  refine lands_rest ?_
  have hdrop : Text.dropPrefix? start.toList c.rest = some rest := by
    rw [hrest]
    exact Text.dropPrefix?_append ..
  rw [hdrop]
  exact (lands_skipOver hc hrest).bind (k := 0) (fun _ c' hc' _ hleft => lands_pure hc' hleft)
    (Nat.le_refl _)

/-- What stands before a mark is taken, with the mark. -/
theorem lands_takeThrough? (needle : String) (hc : c.At source) :
    Reaches source 0 c (fun taken c' => ∀ before ∈ taken,
      c.rest = before ++ (needle.toList ++ c'.rest)) (takeThrough? needle ctx c) := by
  refine lands_rest ?_
  cases heq : Text.splitAt? needle.toList c.rest with
  | none => exact lands_pure hc nofun
  | some cut =>
    obtain ⟨before, rest⟩ := cut
    have hrest := Text.append_of_splitAt? heq
    refine (lands_skipOver hc hrest).next fun _ c' hc' _ hleft =>
      lands_pure hc' fun taken htaken => ?_
    obtain rfl := Option.some.inj htaken
    rw [hleft, hrest, List.append_assoc]

/-! ## Expressions inside the source -/

/-- An expression leaves the reader where it stands. -/
theorem lands_expression {part : List Char} {offset : Nat} (hc : c.At ctx.source)
    (hpart : Fits ctx.source offset part) :
    Reaches ctx.source 0 c (fun _ c' => c' = c) (expression part offset ctx c) := by
  unfold expression
  cases heq : parseExpression (String.ofList part) with
  | ok e => exact lands_pure hc rfl
  | error e =>
    have hwithin := parseExpression_within heq
    rw [String.toList_ofList] at hwithin
    refine lands_failAt ?_ (fun h => absurd rfl h) fun _ hdetail => ?_
    · exact Nat.le_trans (Nat.add_le_add_left hwithin.located.boundary.le _) hpart.le
    · exact (hwithin.escape (SyntaxCause.eq_brokenEscape (Option.some.inj hdetail))).mono
        hpart.part_of

theorem unwrap?_part {first last : Char} {cs inner : List Char}
    (h : unwrap? first last cs = some inner) : inner <:+: cs := by
  unfold unwrap? at h
  split at h
  · split at h
    · split at h
      · next heq =>
        split at h
        · obtain rfl := Option.some.inj h
          rw [List.reverse_eq_cons_iff.1 heq]
          exact ⟨[_], [_], rfl⟩
        · cases h
      · cases h
    · cases h
  · cases h

/-- The pieces of a format value are read without a step. -/
theorem lands_formatParts {offset : Nat} {segments : List (List Char)} (hc : c.At ctx.source)
    (hsegments : ∀ segment ∈ segments, Fits ctx.source offset segment) (isExpr : Bool) :
    Reaches ctx.source 0 c (fun _ c' => c' = c) (formatParts offset isExpr segments ctx c) := by
  induction segments generalizing isExpr with
  | nil => exact lands_pure hc rfl
  | cons segment segments ih =>
    obtain ⟨hsegment, hsegments⟩ := List.forall_mem_cons.1 hsegments
    unfold formatParts
    split
    · have hbody (marked : Bool) (body : List Char) (hbody : body <:+: Text.trim segment) :
          Reaches ctx.source 0 c (fun _ c' => c' = c)
            ((expression ((unwrap? '\x7b' '\x7d' body).getD body) offset >>= fun e =>
              formatParts offset false segments >>= fun read =>
                pure (FormatPart.expr e :: read.1, marked || read.2)) ctx c) := by
        refine (lands_expression hc (hsegment.mono ?_)).next fun e c' _ _ hsame => ?_
        · refine List.IsInfix.trans ?_ (hbody.trans (Text.trim_part segment))
          cases hinner : unwrap? '\x7b' '\x7d' body with
          | none => exact List.infix_refl body
          | some inner => exact unwrap?_part hinner
        · subst hsame
          refine (ih hsegments false).next fun read c' hc' _ hsame => ?_
          exact lands_pure hc' hsame
      generalize Text.trim segment = trimmed at *
      dsimp only
      split
      · exact hbody true _ (List.suffix_cons ..).isInfix
      · exact hbody false _ (List.infix_refl _)
    · refine (ih hsegments true).next fun read c' hc' _ hsame => ?_
      obtain ⟨parts, reactive⟩ := read
      obtain rfl := hsame
      dsimp only
      split
      · exact lands_pure hc' rfl
      · exact lands_pure hc' rfl

/-- The meaning of a quoted attribute value of which it is known whether it is marked as reactive. -/
def attributeBody (raw : List Char) (offset : Nat) (reactive : Bool) (body : List Char) :
    TemplateReader AttrValue :=
  match unwrap? '\x7b' '\x7d' body with
  | some source => do
    let e ← expression source offset
    return .dynamic (.of e reactive (String.ofList source))
  | none =>
    let ticks := raw.count '\x60'
    if 2 ≤ ticks && ticks % 2 == 0 then do
      let (parts, reactive) ← formatParts offset false (Text.splitBy (· == '\x60') raw)
      return .dynamic (.of (.format parts) reactive (String.ofList raw))
    else return .literal (String.ofList raw)

/-- The value of an attribute is read without a step. -/
theorem lands_attributeValue {raw : List Char} {offset : Nat} (hc : c.At ctx.source)
    (hraw : Fits ctx.source offset raw) :
    Reaches ctx.source 0 c (fun _ _ => True) (attributeValue raw offset ctx c) := by
  have hbody (reactive : Bool) {body : List Char} (hbody : body <:+: raw) :
      Reaches ctx.source 0 c (fun _ _ => True) (attributeBody raw offset reactive body ctx c) := by
    unfold attributeBody
    cases hinner : unwrap? '\x7b' '\x7d' body with
    | some source =>
      exact (lands_expression hc (hraw.mono ((unwrap?_part hinner).trans hbody))).next fun _ _ hc' _
        _ => lands_pure hc' trivial
    | none =>
      dsimp only
      split
      · exact (lands_formatParts hc (fun _ h => hraw.mono (Text.splitBy_part h)) false).next fun _ _
          hc' _ _ => lands_pure hc' trivial
      · exact lands_pure hc trivial
  have htrim := Text.trim_part raw
  unfold attributeValue
  generalize Text.trim raw = trimmed at *
  dsimp only
  split
  · exact hbody true ((List.suffix_cons ..).isInfix.trans htrim)
  · exact hbody false htrim

theorem lands_attributeOperand (name : String) {start : Position} (hc : c.At ctx.source)
    (hstart : start.Of ctx.source) :
    Reaches ctx.source 0 c (fun _ _ => True) (attributeOperand name start ctx c) := by
  refine (lands_eat "=" hc).next fun eaten c hc _ _ => ?_
  split
  · refine (lands_skipBlanks hc).next fun _ c hc _ _ => ?_
    refine lands_rest ?_
    generalize c.rest = left
    split
    · exact lands_fail hstart (by decide) none
    · next quote _ =>
      split
      · refine (lands_eat quote.toString hc).next fun _ c hc _ _ => ?_
        refine lands_here ?_
        refine (lands_takeThrough? quote.toString hc).next fun raw c' hc' _ hraw => ?_
        cases raw with
        | none => exact lands_fail hc.position (by decide) none
        | some raw => exact lands_attributeValue hc' (hc.stands (hraw raw rfl)).fits
      · exact lands_fail hstart (by decide) (some name)
  · exact lands_pure hc trivial

/-- Each attribute reads a character of its name. -/
theorem lands_attributesAt {steps steps' : Nat} (hc : c.At ctx.source)
    (hsteps : c.rest.length < steps) (hsteps' : c.rest.length < steps') :
    Lands ctx.source 0 c (fun attributes _ => ∀ a ∈ attributes, a.span.Within ctx.source)
      (attributesAt steps ctx c) (attributesAt steps' ctx c) := by
  induction steps generalizing steps' c with
  | zero => exact absurd hsteps (Nat.not_lt_zero _)
  | succ steps ih =>
    cases steps' with
    | zero => exact absurd hsteps' (Nat.not_lt_zero _)
    | succ steps' =>
      refine (lands_skipBlanks hc).next fun _ c hc hblanks _ => ?_
      refine lands_rest ?_
      generalize hleft : c.rest = left
      split
      · exact lands_here (lands_fail hc.position (by decide) none)
      · exact lands_pure hc nofun
      · exact lands_pure hc nofun
      · refine lands_here ?_
        refine (lands_takeWhile _ hc).next fun name c' hc' _ hname => ?_
        split
        · exact lands_fail_bind hc.position (by decide) none
        · next hne =>
          have hlength : c'.rest.length < c.rest.length := by
            rw [hname, List.length_append]
            have := List.length_pos_iff.2 fun h => hne (List.isEmpty_iff.2 h)
            omega
          refine (lands_skipBlanks hc').next fun _ c₁ hc₁ h₁ _ => ?_
          refine (lands_attributeOperand _ hc₁ hc.position).next fun value c₂ hc₂ h₂ _ => ?_
          refine lands_spanFrom hc₂ hc.position fun span hspan => ?_
          exact (ih hc₂ (by omega) (by omega)).next fun attributes c₃ hc₃ _ hattributes =>
            lands_pure hc₃ (List.forall_mem_cons.2 ⟨hspan, hattributes⟩)

theorem lands_attributes (hc : c.At ctx.source) :
    Reaches ctx.source 0 c (fun attributes _ => ∀ a ∈ attributes, a.span.Within ctx.source)
      (attributes ctx c) :=
  lands_rest (lands_attributesAt hc (Nat.lt_succ_self _) (Nat.lt_succ_self _))

end TemplateReader
end ReactiveView

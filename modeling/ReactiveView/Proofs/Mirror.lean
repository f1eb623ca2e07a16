import Mathlib.Data.List.Perm.Subperm
import Mathlib.Logic.Relation
import ReactiveView.Proofs.Accounting

/-!
# The consumer's mirror

A consumer keeps the payload of every node that it was told of, and brings them up to date with each
batch (`Mirror.apply`). What it has for a node agrees with the present payload up to what the engine
does not tell apart when it decides whether a change is to be reported (`NodePayload.Agrees`): the
order of attributes and of style properties, values that the language takes for the same, and
whether a component instance has styles of its own.

Each change of what a node shows is either reported or one that the engine does not tell apart
(`Engine.Depicts`), and every batch accounts for all nodes that came and went. So after any run that
ends with taking a batch, the consumer has exactly the reportable nodes, and what it has for each of
them agrees with the engine (`Engine.Runs.mirrored`).
-/

namespace ReactiveView

/-! ## States that are taken for the same -/

namespace OrderedMap

variable {κ α : Type} [DecidableEq κ]

/-- Maps that are compared as the same have the same entries, in some order. -/
theorem perm_of_sameBy [BEq α] [LawfulBEq α] {a b : OrderedMap κ α} (ha : a.Distinct)
    (h : a.sameBy (· == ·) b = true) : a.entries.Perm b.entries := by
  obtain ⟨hsize, hall⟩ := Bool.and_eq_true_iff.1 h
  have hsubset : a.entries ⊆ b.entries := by
    rintro ⟨k, v⟩ hmem
    have hfound := List.all_eq_true.1 hall (k, v) hmem
    dsimp only at hfound
    split at hfound
    · rename_i w hw
      rw [eq_of_beq hfound]
      exact mem_of_find? hw
    · cases hfound
  refine (List.subperm_of_subset (List.Nodup.of_map _ ha) hsubset).perm_of_length_le ?_
  exact (eq_of_beq hsize).ge

/-- Maps with the same keys in the same order that are compared as the same are equal. -/
theorem eq_of_sameBy [BEq α] [LawfulBEq α] {a b : OrderedMap κ α} (ha : a.Distinct)
    (hkeys : a.keys = b.keys) (h : a.sameBy (· == ·) b = true) : a = b := by
  have hperm := perm_of_sameBy ha h
  obtain ⟨as⟩ := a
  obtain ⟨bs⟩ := b
  have hkeys : as.map (·.1) = bs.map (·.1) := hkeys
  have hnodup : (as.map (·.1)).Nodup := ha
  rw [hkeys] at hnodup
  congr 1
  refine List.ext_getElem hperm.length_eq fun i hi hj => ?_
  have hkey : as[i].1 = bs[i].1 := by
    have hi' := congrArg (·[i]?) hkeys
    simpa [hi, hj] using hi'
  have hb : find? bs[i].1 bs = some bs[i].2 := find?_of_mem hnodup (List.getElem_mem hj)
  have ha : find? as[i].1 bs = some as[i].2 :=
    find?_of_mem hnodup (hperm.subset (List.getElem_mem hi))
  rw [hkey, hb] at ha
  exact Prod.ext hkey (Option.some.inj ha).symm

end OrderedMap

/-- The classes that actions switch are listed once each. -/
theorem AttrAction.nodup_switchNames (actions : List AttrAction) :
    (AttrAction.switchNames actions).Nodup := by
  unfold AttrAction.switchNames OrderedSet.ofList OrderedSet.insertAll
  exact List.foldlRecOn (motive := fun s : OrderedSet String => s.toList.Nodup) _ _ List.nodup_nil
    fun _ hs name _ => OrderedSet.nodup_insert hs name

/-! ## Payloads that agree -/

/-- Values of controls that the language takes for the same. -/
def SameValue (a b : Option Json) : Prop :=
  ∃ v w, ElementState.sameValue v w = true ∧ a = v.map Value.toJson ∧ b = w.map Value.toJson

/-- Data that the language takes for the same. -/
def SameData (a b : OrderedMap String Json) : Prop :=
  ∃ v w : OrderedMap String Value, v.sameBy Value.same w = true ∧
    a = v.mapValues Value.toJson ∧ b = w.mapValues Value.toJson

/-- What a payload tells of a node itself. -/
def NodePayload.bare (p : NodePayload) : NodePayload :=
  { p with parent := none, rebind := false, restyle := p.kind ≠ "context" && p.restyle }

/-- Payloads of a node at different times that show the same, as far as the engine tells. -/
structure NodePayload.Agrees (p q : NodePayload) : Prop where
  /-- They are of the same node. -/
  id : p.id = q.id
  /-- The tag. -/
  tag : p.tag = q.tag
  /-- The kind of node. -/
  kind : p.kind = q.kind
  /-- The attributes, in any order. -/
  attrs : p.attrs.entries.Perm q.attrs.entries
  /-- The classes. -/
  classes : p.classes = q.classes
  /-- The style properties, in any order. -/
  style : p.style.entries.Perm q.style.entries
  /-- The text. -/
  text : p.text = q.text
  /-- Whether a carrier is meant for its context alone. -/
  restyle : p.kind = "context" ∨ p.restyle = q.restyle
  /-- The value of a control, up to steps between values that are the same. -/
  value : Relation.EqvGen SameValue p.value q.value
  /-- The type of that value. -/
  valueType : p.valueType = q.valueType
  /-- Attached data, up to steps between data that are the same. -/
  data : Relation.EqvGen SameData p.data q.data
  /-- The namespace of the markup. -/
  ns : p.ns = q.ns
  /-- Whether the node asks for the focus. -/
  focus : p.focus = q.focus
  /-- Whether texts of the node are localized by the consumer. -/
  localize : p.localize = q.localize

namespace NodePayload.Agrees

variable {p q r : NodePayload}

/-- Payloads agree if they differ at most in the ancestor, in the moves of the node and in the
styles of a component instance. -/
theorem of_bare (h : p.bare = q.bare) : p.Agrees q := by
  simp only [bare, mk.injEq] at h
  obtain ⟨hid, -, htag, hkind, hattrs, hclasses, hstyle, htext, -, hrestyle, hvalue, htype, hdata,
    hns, hfocus, hlocalize⟩ := h
  refine ⟨hid, htag, hkind, hattrs ▸ .refl _, hclasses, hstyle ▸ .refl _, htext, ?_,
    hvalue ▸ .refl _, htype, hdata ▸ .refl _, hns, hfocus, hlocalize⟩
  by_cases hcontext : p.kind = "context"
  · exact .inl hcontext
  · refine .inr ?_
    simpa [hcontext, hkind ▸ hcontext] using hrestyle

/-- Every payload agrees with itself. -/
theorem refl (p : NodePayload) : p.Agrees p := of_bare rfl

/-- Agreement is mutual. -/
theorem symm (h : p.Agrees q) : q.Agrees p where
  id := h.id.symm
  tag := h.tag.symm
  kind := h.kind.symm
  attrs := h.attrs.symm
  classes := h.classes.symm
  style := h.style.symm
  text := h.text.symm
  restyle := h.restyle.imp (h.kind.symm.trans ·) Eq.symm
  value := h.value.symm
  valueType := h.valueType.symm
  data := h.data.symm
  ns := h.ns.symm
  focus := h.focus.symm
  localize := h.localize.symm

/-- Agreement goes on. -/
theorem trans (h : p.Agrees q) (h' : q.Agrees r) : p.Agrees r where
  id := h.id.trans h'.id
  tag := h.tag.trans h'.tag
  kind := h.kind.trans h'.kind
  attrs := h.attrs.trans h'.attrs
  classes := h.classes.trans h'.classes
  style := h.style.trans h'.style
  text := h.text.trans h'.text
  restyle := by
    rcases h.restyle with hcontext | hpq
    · exact .inl hcontext
    · exact h'.restyle.imp (h.kind.trans ·) hpq.trans
  value := h.value.trans _ _ _ h'.value
  valueType := h.valueType.trans h'.valueType
  data := h.data.trans _ _ _ h'.data
  ns := h.ns.trans h'.ns
  focus := h.focus.trans h'.focus
  localize := h.localize.trans h'.localize

end NodePayload.Agrees

namespace Picture

/-- What the consumer is told of a node that is shown so. -/
def payload (id : NodeId) : Picture → NodePayload
  | element tag ns _ state =>
    { id := id.oid, tag := tag, kind := "element", attrs := state.attrs, classes := state.classList,
      style := state.style, text := state.text, value := state.value.map Value.toJson,
      valueType := state.valueType, data := state.data.mapValues Value.toJson, ns := ns,
      focus := state.focus, localize := state.localize }
  | .text words => { id := id.oid, tag := "@text", kind := "text", text := some words }
  | context name => { id := id.oid, tag := name, kind := "context" }
  | carrier kind attrs words restyle =>
    { id := id.oid, tag := kind.tag, kind := "carrier", attrs := attrs, text := words,
      restyle := restyle }
  | plain kind tag => { id := id.oid, tag := tag, kind := kind }

/-- An element shows nothing yet, or what is computed from its actions. A carrier has each attribute
once. -/
def Sound : Picture → Prop
  | element _ _ actions state =>
    state.Tidy ∧
      (state.switches.keys = [] ∨ state.switches.keys = AttrAction.switchNames actions)
  | carrier _ attrs _ _ => attrs.Distinct
  | _ => True

/-- Which classes are switched is a matter of the base of a picture. -/
theorem Sound.of_base {p q : Picture} (h : p.Sound) (hbase : q.base = p.base) : q.Sound := by
  cases p with
  | element tag ns actions state =>
    cases q with
    | element tag' ns' actions' state' =>
      simp only [base, element.injEq, ElementState.mk.injEq] at hbase
      obtain ⟨-, -, rfl, hattrs, -, hswitches, -, hstyle, -, hdata, -⟩ := hbase
      refine ⟨⟨?_, ?_, ?_⟩, ?_⟩
      · rw [hattrs]
        exact h.1.attrs
      · rw [hstyle]
        exact h.1.style
      · rw [hdata]
        exact h.1.data
      · rw [hswitches]
        exact h.2
    | _ => cases hbase
  | carrier kind attrs text restyle =>
    cases q with
    | carrier kind' attrs' text' restyle' =>
      simp only [base, carrier.injEq] at hbase
      obtain ⟨-, rfl, -⟩ := hbase
      exact h
    | _ => cases hbase
  | _ =>
    cases q with
    | element tag' ns' actions' state' => cases hbase
    | carrier kind' attrs' text' restyle' => cases hbase
    | _ => trivial

/-- States that the engine takes for the same have payloads that agree. -/
theorem agrees_of_same {id : NodeId} {tag : String} {ns : Namespace} {actions : List AttrAction}
    {s t : ElementState} (hs : (element tag ns actions s).Sound)
    (ht : (element tag ns actions t).Sound) (h : s.same t = true) :
    ((element tag ns actions s).payload id).Agrees ((element tag ns actions t).payload id) := by
  simp only [ElementState.same, Bool.and_eq_true, beq_iff_eq] at h
  obtain ⟨⟨⟨⟨⟨⟨⟨⟨⟨⟨hattrs, hclasses⟩, hswitches⟩, hextra⟩, hstyle⟩, htext⟩, hdata⟩, hvalue⟩, htype⟩,
    hlocalize⟩, hfocus⟩ := h
  have hdistinct : s.switches.Distinct := by
    unfold OrderedMap.Distinct
    rcases hs.2 with hkeys | hkeys
    · rw [hkeys]
      exact List.nodup_nil
    · rw [hkeys]
      exact AttrAction.nodup_switchNames actions
  have hlength : s.switches.keys.length = t.switches.keys.length := by
    have hsize := (Bool.and_eq_true_iff.1 hswitches).1
    simpa [OrderedMap.keys, OrderedMap.size] using hsize
  have hkeys : s.switches.keys = t.switches.keys := by
    rcases hs.2 with hs | hs
    · rw [hs] at hlength ⊢
      exact (List.length_eq_zero_iff.1 hlength.symm).symm
    · rcases ht.2 with ht | ht
      · rw [ht] at hlength ⊢
        exact List.length_eq_zero_iff.1 hlength
      · rw [hs, ht]
  have hclassList : s.classList = t.classList := by
    simp only [ElementState.classList, ElementState.enabled, hclasses, hextra,
      OrderedMap.eq_of_sameBy hdistinct hkeys hswitches]
  exact
    { id := rfl
      tag := rfl
      kind := rfl
      attrs := OrderedMap.perm_of_sameBy hs.1.attrs hattrs
      classes := hclassList
      style := OrderedMap.perm_of_sameBy hs.1.style hstyle
      text := htext
      restyle := .inr rfl
      value := .rel _ _ ⟨_, _, hvalue, rfl, rfl⟩
      valueType := htype
      data := .rel _ _ ⟨_, _, hdata, rfl, rfl⟩
      ns := rfl
      focus := hfocus
      localize := hlocalize }

end Picture

/-- What the consumer is shown of an element. -/
def ElementData.picture (data : ElementData) : Picture :=
  .element data.tag data.ns data.actions data.state

/-- A node that is not built is shown soundly. -/
theorem RenderKind.Unbuilt.sound {kind : RenderKind} (h : kind.Unbuilt) :
    kind.picture.Sound := by
  cases kind with
  | element data =>
    have hstate : data.state = {} := h
    change Picture.Sound (.element data.tag data.ns data.actions data.state)
    rw [hstate]
    exact ⟨ElementState.tidy_empty, .inl rfl⟩
  | carrier data => exact h
  | _ => trivial

/-- The payload of a node tells of it what its picture does. -/
theorem Engine.payload_bare {e : Engine} {id : NodeId} {n : RenderNode} (hn : e.node? id = some n) :
    ∃ p, e.payload id = some p ∧ p.bare = (n.kind.picture.payload id).bare := by
  unfold payload
  rw [hn]
  refine ⟨_, rfl, ?_⟩
  dsimp only
  cases n.kind with
  | context data => simp [NodePayload.bare, RenderKind.picture, Picture.payload, RenderKind.name,
      RenderKind.tag]
  | _ => rfl

/-! ## What the next batch leaves out -/

namespace Engine

/-- The next batch tells of a node. -/
def Tells (e : Engine) (id : NodeId) : Prop :=
  id ∈ e.shot.created.toList ∨ id ∈ e.shot.updated.toList

/-- What the next batch leaves out was in the earlier tree, and is shown as it was there. -/
structure Depicts (earlier : Arena RenderNode) (e : Engine) : Prop where
  /-- Elements show nothing yet, or what is computed for them. -/
  sound : ∀ ⦃id n⦄, e.node? id = some n → n.kind.picture.Sound
  /-- Nodes that the batch leaves out are as they were. -/
  told : ∀ ⦃id n⦄, e.node? id = some n → n.flags.reportable = true → e.Tells id ∨
    ∃ n₀, earlier.get? id = some n₀ ∧
      (n₀.kind.picture.payload id).Agrees (n.kind.picture.payload id)

variable {earlier : Arena RenderNode} {e e' : Engine}

/-- What is in the same shot is told. -/
theorem Tells.congr {id : NodeId} (h : e.Tells id) (hshot : e'.shot = e.shot) : e'.Tells id := by
  unfold Tells
  rwa [hshot]

/-- What is shown is a matter of the nodes and the shot. -/
theorem Depicts.congr (h : Depicts earlier e) (hnodes : e'.nodes = e.nodes)
    (hshot : e'.shot = e.shot) : Depicts earlier e' := by
  have hnode (id : NodeId) : e'.node? id = e.node? id := by
    unfold node?
    rw [hnodes]
  exact ⟨fun id n hn => h.sound (hnode id ▸ hn),
    fun id n hn hr => (h.told (hnode id ▸ hn) hr).imp_left (·.congr hshot)⟩

/-- Changing a node so that the change is told already, or is none that the engine tells apart. -/
theorem Depicts.modifyNode (h : Depicts earlier e) {id : NodeId} {f : RenderNode → RenderNode}
    (hreportable : ∀ n, e.node? id = some n → (f n).flags.reportable = n.flags.reportable)
    (hsound : ∀ n, e.node? id = some n → (f n).kind.picture.Sound)
    (htold : ∀ n, e.node? id = some n → n.flags.reportable = true → e.Tells id ∨
      (n.kind.picture.payload id).Agrees ((f n).kind.picture.payload id)) :
    Depicts earlier (e.modifyNode id f) := by
  refine ⟨fun id' n' hn' => ?_, fun id' n' hn' hr => ?_⟩
  · obtain ⟨n, hn, rfl⟩ := of_node?_modifyNode hn'
    split
    · rename_i hid
      exact hsound n (hid ▸ hn)
    · exact h.sound hn
  · obtain ⟨n, hn, rfl⟩ := of_node?_modifyNode hn'
    by_cases hid : id' = id
    · subst hid
      rw [if_pos rfl] at hr ⊢
      rw [hreportable n hn] at hr
      rcases htold n hn hr with htells | hsame
      · exact .inl htells
      · refine (h.told hn hr).imp_right fun ⟨n₀, hn₀, hagrees⟩ => ⟨n₀, hn₀, hagrees.trans hsame⟩
    · rw [if_neg hid] at hr ⊢
      exact h.told hn hr

/-- Changing a node so that it is shown as before. -/
theorem Depicts.modifyNode_same (h : Depicts earlier e) {id : NodeId} {f : RenderNode → RenderNode}
    (hreportable : ∀ n, e.node? id = some n → (f n).flags.reportable = n.flags.reportable)
    (hpicture : ∀ n, e.node? id = some n → (f n).kind.picture = n.kind.picture) :
    Depicts earlier (e.modifyNode id f) := by
  refine h.modifyNode hreportable (fun n hn => ?_) fun n hn _ => .inr ?_
  · rw [hpicture n hn]
    exact h.sound hn
  · rw [hpicture n hn]
    exact .refl _

/-- A report of a change is told in the next batch, and takes nothing out of it. -/
theorem Depicts.update (h : Depicts earlier e) (id : NodeId) :
    Depicts earlier { e with shot := e.shot.update id } := by
  refine ⟨h.sound, fun id' n hn hr => (h.told hn hr).imp_left fun htells => ?_⟩
  unfold Tells
  dsimp only
  rw [Shot.created_update]
  refine htells.imp_right fun hmem => ?_
  unfold Shot.update
  split
  · exact hmem
  · exact OrderedSet.mem_insert.2 (.inl hmem)

/-- A live node is told of once a change of it is reported. -/
theorem tells_update (haccounts : Accounts earlier e.nodes e.shot) {id : NodeId} {n : RenderNode}
    (hn : e.node? id = some n) : Tells { e with shot := e.shot.update id } id := by
  have hlive : id ∉ e.shot.deleted.toList := fun hmem => by
    have hgone := ((haccounts.mem_deleted id).1 hmem).2
    unfold Arena.contains at hgone
    rw [show e.nodes.get? id = some n from hn] at hgone
    cases hgone
  unfold Tells
  dsimp only
  rw [Shot.created_update]
  unfold Shot.update
  split
  · rename_i hold
    simp only [OrderedSet.contains, Bool.or_eq_true, List.contains_iff_mem] at hold
    exact .inl (hold.resolve_right hlive)
  · exact .inr (OrderedSet.mem_insert.2 (.inr rfl))

/-- Changing what a node shows, and reporting it. -/
theorem Depicts.repaint (h : Depicts earlier e) (haccounts : Accounts earlier e.nodes e.shot)
    {id : NodeId} {f : RenderNode → RenderNode}
    (hreportable : ∀ n, e.node? id = some n → (f n).flags.reportable = n.flags.reportable)
    (hsound : ∀ n, e.node? id = some n → (f n).kind.picture.Sound) :
    Depicts earlier ((e.modifyNode id f).report id) := by
  unfold report
  split
  · exact (h.update id).modifyNode hreportable hsound fun n hn _ => .inl (tells_update haccounts hn)
  · rename_i hsilent
    refine h.modifyNode hreportable hsound fun n hn hr => absurd ?_ hsilent
    refine isReportable_iff.2 ⟨f n, ?_, (hreportable n hn).trans hr⟩
    rw [node?_modifyNode, if_pos rfl, hn]
    rfl

/-- A node that goes. -/
theorem Depicts.remove (h : Depicts earlier e) {id : NodeId} {n : RenderNode} :
    Depicts earlier
      { e with
        nodes := (e.nodes.remove id).2
        shot := if n.flags.reportable then e.shot.delete id else e.shot } := by
  have hback {id' : NodeId} {m : RenderNode} (hm : (e.nodes.remove id).2.get? id' = some m) :
      id' ≠ id ∧ e.node? id' = some m := by
    rw [Arena.get?_remove] at hm
    split at hm
    · cases hm
    · rename_i hne
      exact ⟨hne, hm⟩
  refine ⟨fun id' m hm => h.sound (hback hm).2, fun id' m hm hr => ?_⟩
  obtain ⟨hne, hm⟩ := hback hm
  refine (h.told hm hr).imp_left fun htells => ?_
  unfold Tells
  dsimp only
  split
  · rw [Shot.updated_delete]
    refine htells.imp (fun hmem => ?_) fun hmem => OrderedSet.mem_erase.2 ⟨hmem, hne⟩
    by_cases hid : id ∈ e.shot.created.toList
    · rw [(Shot.delete_of_mem_created hid).1]
      exact OrderedSet.mem_erase.2 ⟨hmem, hne⟩
    · rw [(Shot.delete_of_not_mem_created hid).1]
      exact hmem
  · exact htells

/-- A new node. -/
theorem Depicts.insert (h : Depicts earlier e) (hvalid : e.nodes.Valid) (hroom : e.nodes.Roomy)
    {n : RenderNode} (hnew : n.New) :
    Depicts earlier
      { e with
        nodes := (e.nodes.insert n).2
        shot := if n.flags.reportable then e.shot.create (e.nodes.insert n).1 else e.shot } := by
  refine ⟨fun id m hm => ?_, fun id m hm hr => ?_⟩
  · rcases Arena.of_get?_insert hm with ⟨-, rfl⟩ | hm
    · exact hnew.kind.sound
    · exact h.sound hm
  · have hm : (e.nodes.insert n).2.get? id = some m := hm
    rw [Arena.get?_insert hvalid hroom] at hm
    unfold Tells
    dsimp only
    split at hm
    · rename_i hid
      cases hm
      rw [if_pos hr]
      exact .inl (.inl (OrderedSet.mem_insert.2 (.inr hid)))
    · rename_i hid
      refine (h.told hm hr).imp_left fun htells => ?_
      split
      · exact htells.imp (fun hmem => OrderedSet.mem_insert.2 (.inl hmem))
          fun hmem => OrderedSet.mem_erase.2 ⟨hmem, hid⟩
      · exact htells

/-! ### Operations -/

/-- As long as there is room, the shot tells the difference to an earlier tree, and what it leaves
out is shown as it was there. -/
def Faithful (earlier : Arena RenderNode) (e : Engine) : Prop :=
  e.nodes.Valid ∧ AccountsSince earlier e ∧ (e.nodes.Roomy → Depicts earlier e)

/-- A change that leaves nothing out of the shot that is shown anew. -/
theorem Faithful.step (he : e.Faithful earlier)
    (hkeeps : ∀ I : Engine → Prop, OperationStable I → I e → I e')
    (h : Accounts earlier e.nodes e.shot → e.nodes.Roomy → Depicts earlier e →
      Depicts earlier e') : e'.Faithful earlier := by
  refine ⟨hkeeps _ valid_stable he.1, hkeeps _ (accounts_stable earlier) he.2.1, fun hroom' => ?_⟩
  have hroom : e.nodes.Roomy :=
    Nat.lt_of_le_of_lt (hkeeps _ (slots_stable e.nodes.slots.size) (Nat.le_refl _)) hroom'
  exact h (he.2.1 hroom) hroom (he.2.2 hroom)

/-- Changing what an element shows, with a report or where none is due. -/
theorem Depicts.modifyElement (h : Depicts earlier e) {id : NodeId} {data : ElementData}
    {f : ElementData → ElementData} (hdata : e.element? id = some data)
    (hskeleton : (f data).skeleton = data.skeleton)
    (hsound : data.picture.Sound → (f data).picture.Sound) :
    (Accounts earlier e.nodes e.shot → Depicts earlier ((e.modifyElement id f).report id)) ∧
    ((e.isReportable id = true → e.Tells id ∨ data.state.same (f data).state = true ∨
        (f data).state.same data.state = true) → Depicts earlier (e.modifyElement id f)) := by
  have hkind (n : RenderNode) (hn : e.node? id = some n) : n.kind = .element data := by
    unfold element? at hdata
    rw [hn] at hdata
    exact RenderKind.eq_of_element? hdata
  have hpicture (n : RenderNode) (hn : e.node? id = some n) :
      (n.kind.modifyElement f).picture = (f data).picture := by
    rw [hkind n hn]
    rfl
  have hsound (n : RenderNode) (hn : e.node? id = some n) :
      (n.kind.modifyElement f).picture.Sound := by
    have hold := h.sound hn
    rw [hkind n hn] at hold
    rw [hpicture n hn]
    exact hsound hold
  refine ⟨fun haccounts => h.repaint haccounts (fun _ _ => rfl) hsound,
    fun htold => h.modifyNode (fun _ _ => rfl) hsound fun n hn hr => ?_⟩
  have hold := h.sound hn
  have hnew := hsound n hn
  dsimp only
  rw [hpicture n hn] at hnew ⊢
  rw [hkind n hn] at hold ⊢
  have hmake : (f data).tag = data.tag ∧ (f data).ns = data.ns ∧
      (f data).actions = data.actions := by
    unfold ElementData.skeleton at hskeleton
    simp only [ElementData.mk.injEq] at hskeleton
    exact ⟨hskeleton.1, hskeleton.2.1, hskeleton.2.2.2.2.2.1⟩
  unfold ElementData.picture at hnew ⊢
  rw [hmake.1, hmake.2.1, hmake.2.2] at hnew ⊢
  refine (htold (isReportable_iff.2 ⟨n, hn, hr⟩)).imp_right fun hsame => ?_
  rcases hsame with hsame | hsame
  · exact Picture.agrees_of_same hold hnew hsame
  · exact (Picture.agrees_of_same hnew hold hsame).symm

/-- What is computed for an element is shown soundly. -/
theorem sound_of_follows {data : ElementData} {state : ElementState}
    (h : state.Follows data.actions) : { data with state := state : ElementData }.picture.Sound :=
  ⟨h.toTidy, .inr h.switches⟩

/-- Edits by code keep what is shown sound. -/
theorem sound_edit {data data' : ElementData} (h : data.Edit data') (hdata : data.picture.Sound) :
    data'.picture.Sound := by
  have hactions : data'.actions = data.actions := congrArg (·.actions) h.skeleton
  refine ⟨h.tidy hdata.1, ?_⟩
  rw [h.switches, hactions]
  exact hdata.2

/-- Changes that leave what is shown leave nothing out of the shot. -/
theorem Faithful.still (he : e.Faithful earlier) {id : NodeId} {f : RenderNode → RenderNode}
    (hf : ∀ n, e.node? id = some n → n.Still (f n)) : (e.modifyNode id f).Faithful earlier :=
  he.step (fun _ h he => h.change id f (fun n hn => (hf n hn).fixed.reportable) he) fun _ _ h =>
    h.modifyNode_same (fun n hn => (hf n hn).fixed.reportable) fun n hn => (hf n hn).picture

/-- The text of a node. -/
theorem Depicts.setNodeText (h : Depicts earlier e) (haccounts : Accounts earlier e.nodes e.shot)
    (id : NodeId) (text : String) : Depicts earlier (e.setNodeText id text) := by
  unfold Engine.setNodeText
  split
  · exact h
  · rename_i n hn
    split
    · rename_i data hkind
      split
      · exact h
      · have hdata : e.element? id = some data := by
          unfold element?
          rw [hn, Option.bind_some, hkind]
          rfl
        exact (h.modifyElement hdata rfl fun hsound => ⟨⟨hsound.1.attrs, hsound.1.style, hsound.1.data⟩,
          hsound.2⟩).1 haccounts
    · split
      · exact h
      · exact h.repaint haccounts (fun _ _ => rfl) fun _ _ => trivial
    · exact h

/-- No operation leaves anything out of the shot that is shown anew. -/
theorem faithful_closed (earlier : Arena RenderNode) : OperationClosed (Faithful earlier) where
  outside he hnodes hshot hroot hentries :=
    he.step (fun _ h he => h.outside he hnodes hshot hroot hentries) fun _ _ h =>
      h.congr hnodes hshot
  enter he := he.step (fun _ h he => h.enter he) fun _ _ h => h.congr rfl rfl
  quiet id f hf he :=
    he.step (fun _ h he => h.change id f (fun n hn => (hf n hn).reportable) he) fun _ _ h =>
      h.modifyNode_same (fun n hn => (hf n hn).reportable) fun n hn => (hf n hn).picture
  drop id he := keeps_drop (I := Faithful earlier) (fun hf he => he.still hf)
    (fun hn he => he.step (fun _ h he => h.remove hn he) fun _ _ h => h.remove) id he
  track owner name _ _ he :=
    keeps_track (I := Faithful earlier) (fun hf he => he.still hf) owner name _ he
  purge id he := keeps_purge (I := Faithful earlier) (fun hf he => he.still hf) id he
  edit id f hf he := he.step (fun _ h he => h.closed.edit id hf he) fun haccounts _ h => by
    unfold editElement
    split
    · exact h
    · rename_i data hdata
      obtain ⟨hreport, hsilent⟩ := h.modifyElement hdata (hf data).skeleton (sound_edit (hf data))
      dsimp only
      split
      · exact hreport haccounts
      · rename_i hsame
        exact hsilent fun _ => .inr (.inr (by simpa using hsame))
  text id text he := he.step (fun _ h he => h.closed.text id text he) fun haccounts _ h =>
    h.setNodeText haccounts id text
  redraw := by
    intro e₀ e id state he₀ hcomputed he
    refine he.step (fun _ h he => h.fixed.paint.redraw id state he) fun haccounts _ h => ?_
    unfold Engine.redraw showState
    split
    · exact h
    · rename_i data hdata
      have hsound := sound_of_follows (hcomputed he₀.1 data hdata)
      obtain ⟨hreport, hsilent⟩ := h.modifyElement (f := fun data => { data with state := state })
        hdata rfl fun _ => hsound
      dsimp only
      split
      · exact hreport haccounts
      · rename_i hsame
        exact hsilent fun _ => .inr (.inl (by simpa using hsame))
  present := by
    intro e₀ e id state hfresh he₀ hcomputed he
    refine he.step (fun _ h he => h.fixed.paint.showState id state he) fun haccounts _ h => ?_
    unfold showState
    split
    · exact h
    · rename_i data hdata
      have hsound := sound_of_follows (hcomputed he₀.1 data hdata)
      exact (h.modifyElement hdata rfl fun _ => hsound).2 fun hr => .inl (.inl (hfresh hr))
  draw := by
    intro e id f hfresh hf he
    have hreportable := fun n hn => (hf n hn).reportable
    refine he.step (fun _ h he => h.change id f hreportable he) fun _ _ h =>
      h.modifyNode hreportable (fun n hn => ?_) fun n hn hr => ?_
    · exact (h.sound hn).of_base (hf n hn).base
    · exact .inl (.inl (hfresh (isReportable_iff.2 ⟨n, hn, hr⟩)))
  update hr he := he.step (fun _ h he => h.update hr he) fun _ _ h => h.update _
  insert n hn he := he.step (fun _ h he => h.insert n he) fun haccounts hroom h =>
    h.insert haccounts.valid hroom hn

end Engine

/-! ## Mirrors -/

/-- The payloads that a consumer has, by the numbers of their nodes. -/
abbrev Mirror := OrderedMap UInt64 NodePayload

namespace Mirror

/-- Put the payload of a node in place of the one that is there. -/
def replace (m : Mirror) (p : NodePayload) : Mirror :=
  if m.contains p.id then m.insert p.id p else m

/-- Add the payload of a node. -/
def add (m : Mirror) (p : NodePayload) : Mirror := m.insert p.id p

/-- Bring a mirror up to date: deleted nodes go, those that were updated are replaced, and new ones
are added. -/
def apply (m : Mirror) (b : ShotBatch) : Mirror :=
  b.created.foldl add (b.updated.foldl replace (b.deleted.foldl OrderedMap.erase m))

/-- The mirror after the result of an operation, which may be a batch. -/
def given (m : Mirror) : Except EngineError Outcome → Mirror
  | .ok (.batch b) => m.apply b
  | _ => m

/-- The mirror of a consumer that was given the batches among some results of operations. -/
def after (rs : List (Except EngineError Outcome)) : Mirror := rs.foldl given .empty

/-- A result that is no batch is nothing to a consumer. -/
theorem given_of_ne (m : Mirror) {r : Except EngineError Outcome} (h : ∀ b, r ≠ .ok (.batch b)) :
    m.given r = m := by
  unfold given
  split
  · rename_i b
    exact absurd rfl (h b)
  · rfl

/-- Applying payloads of other nodes. -/
theorem get?_foldl_of_ne {f : Mirror → NodePayload → Mirror}
    (hf : ∀ m p k, k ≠ p.id → (f m p).get? k = m.get? k) {ps : List NodePayload} {k : UInt64}
    (hk : k ∉ ps.map (·.id)) (m : Mirror) : (ps.foldl f m).get? k = m.get? k := by
  refine List.foldlRecOn (motive := fun m' : Mirror => m'.get? k = m.get? k) _ _ rfl
    fun m' hm' p hp => ?_
  rw [hf m' p k fun heq => hk (heq ▸ List.mem_map_of_mem hp), hm']

/-- Applying payloads, one of which is of a node. -/
theorem get?_foldl_of_mem {f : Mirror → NodePayload → Mirror}
    (hf : ∀ m p k, k ≠ p.id → (f m p).get? k = m.get? k) {ps : List NodePayload}
    (hps : (ps.map (·.id)).Nodup) {p : NodePayload} (hp : p ∈ ps) (m : Mirror) :
    ∃ m', m'.get? p.id = m.get? p.id ∧ (ps.foldl f m).get? p.id = (f m' p).get? p.id := by
  obtain ⟨before, later, rfl⟩ := List.append_of_mem hp
  rw [List.map_append, List.map_cons, List.nodup_append, List.nodup_cons] at hps
  obtain ⟨-, ⟨hlater, -⟩, hbefore⟩ := hps
  rw [List.foldl_append, List.foldl_cons]
  exact ⟨before.foldl f m,
    get?_foldl_of_ne hf (fun hmem => hbefore _ hmem _ List.mem_cons_self rfl) m,
    get?_foldl_of_ne hf hlater _⟩

/-- Replacing the payload of another node. -/
theorem get?_replace_of_ne (m : Mirror) (p : NodePayload) (k : UInt64) (hk : k ≠ p.id) :
    (m.replace p).get? k = m.get? k := by
  unfold replace
  split
  · exact m.get?_insert_of_ne hk p
  · rfl

/-- Adding the payload of another node. -/
theorem get?_add_of_ne (m : Mirror) (p : NodePayload) (k : UInt64) (hk : k ≠ p.id) :
    (m.add p).get? k = m.get? k := m.get?_insert_of_ne hk p

/-- What is left when nodes go. -/
theorem get?_foldl_erase (ids : List UInt64) (m : Mirror) (k : UInt64) :
    (ids.foldl OrderedMap.erase m).get? k = if k ∈ ids then none else m.get? k := by
  induction ids generalizing m with
  | nil => rfl
  | cons id ids ih =>
    rw [List.foldl_cons, ih, OrderedMap.get?_erase]
    by_cases hid : k = id
    · simp [hid]
    · simp [hid]

/-- What a mirror has for a new node. -/
theorem get?_apply_created {b : ShotBatch} (hb : b.reported.Nodup) {p : NodePayload}
    (hp : p ∈ b.created) (m : Mirror) : (m.apply b).get? p.id = some p := by
  have hcreated : (b.created.map (·.id)).Nodup :=
    (List.nodup_append.1 (List.nodup_append.1 hb).1).1
  obtain ⟨m', -, happly⟩ := get?_foldl_of_mem get?_add_of_ne hcreated hp
    (b.updated.foldl replace (b.deleted.foldl OrderedMap.erase m))
  unfold apply
  rw [happly]
  exact OrderedMap.get?_insert_self m' p.id p

/-- What a mirror has for a node that was updated. -/
theorem get?_apply_updated {b : ShotBatch} (hb : b.reported.Nodup) {p : NodePayload}
    (hp : p ∈ b.updated) {m : Mirror} (hm : m.contains p.id = true) :
    (m.apply b).get? p.id = some p := by
  obtain ⟨hchanged, -, hgone⟩ := List.nodup_append.1 hb
  obtain ⟨-, hupdated, hnew⟩ := List.nodup_append.1 hchanged
  have hid := List.mem_map_of_mem (f := (·.id)) hp
  unfold apply
  rw [get?_foldl_of_ne get?_add_of_ne fun hmem => hnew _ hmem _ hid rfl]
  obtain ⟨m', hm', happly⟩ :=
    get?_foldl_of_mem get?_replace_of_ne hupdated hp (b.deleted.foldl OrderedMap.erase m)
  rw [get?_foldl_erase, if_neg fun hmem => hgone _ (List.mem_append_right _ hid) _ hmem rfl] at hm'
  have hcontains : m'.contains p.id = true := by
    unfold OrderedMap.contains at hm ⊢
    rw [hm', hm]
  rw [happly, replace, if_pos hcontains, OrderedMap.get?_insert_self]

/-- What a mirror has for a node that is not updated and not new. -/
theorem get?_apply_of_unreported {b : ShotBatch} {k : UInt64} (hcreated : k ∉ b.created.map (·.id))
    (hupdated : k ∉ b.updated.map (·.id)) (m : Mirror) :
    (m.apply b).get? k = if k ∈ b.deleted then none else m.get? k := by
  unfold apply
  rw [get?_foldl_of_ne get?_add_of_ne hcreated, get?_foldl_of_ne get?_replace_of_ne hupdated,
    get?_foldl_erase]

end Mirror

/-- A mirror has exactly the reportable nodes, and what it has for a node agrees with the engine. -/
structure Mirror.Reflects (m : Mirror) (e : Engine) : Prop where
  /-- The mirror has the reportable nodes and nothing else. -/
  contains_iff : ∀ id : NodeId, m.contains id.oid = true ↔ e.isReportable id = true
  /-- What it has for a node agrees with the engine. -/
  agrees : ∀ ⦃id n p⦄, e.node? id = some n → m.get? id.oid = some p →
    p.Agrees (n.kind.picture.payload id)

namespace Mirror.Reflects

open Engine

variable {m : Mirror} {e₀ e : Engine}

/-- An empty mirror reflects an engine without nodes. -/
theorem empty (h : ∀ id, e.node? id = none) : Mirror.Reflects .empty e := by
  refine ⟨fun id => ?_, fun id n p hn => ?_⟩
  · unfold isReportable
    rw [h id]
    exact ⟨nofun, nofun⟩
  · rw [h id] at hn
    cases hn

/-- What a mirror has after a batch for a node that the batch tells of. -/
theorem get?_apply_told (h : m.Reflects e₀) (haccounts : Accounts e₀.nodes e.nodes e.shot)
    {id : NodeId} (htells : e.Tells id) : e.isReportable id = true ∧
      ∃ p, e.payload id = some p ∧ (m.apply e.drainShot.1).get? id.oid = some p := by
  have hreported := (AccountsSince.tellsDifference haccounts).reported_nodup
  have hr : e.isReportable id = true := by
    rcases htells with hmem | hmem
    · exact ((haccounts.mem_created id).1 hmem).1
    · exact (haccounts.of_mem_updated id hmem).2
  obtain ⟨n, hn, -⟩ := isReportable_iff.1 hr
  obtain ⟨p, hp, -⟩ := payload_bare hn
  refine ⟨hr, p, hp, ?_⟩
  rw [← id_of_payload hp]
  rcases htells with hmem | hmem
  · exact Mirror.get?_apply_created hreported (List.mem_filterMap.2 ⟨id, hmem, hp⟩) m
  · refine Mirror.get?_apply_updated hreported (List.mem_filterMap.2 ⟨id, hmem, hp⟩) ?_
    rw [id_of_payload hp, h.contains_iff]
    have hold := (haccounts.of_mem_updated id hmem).1
    exact (haccounts.reports_eq id hold (Arena.contains_of_reports hr)).symm.trans hr

/-- What a mirror has after a batch for a node that the batch leaves out. -/
theorem get?_apply_untold (haccounts : Accounts e₀.nodes e.nodes e.shot) {id : NodeId}
    (htells : ¬e.Tells id) (m : Mirror) : (m.apply e.drainShot.1).get? id.oid =
      if id ∈ e.shot.deleted.toList then none else m.get? id.oid := by
  have hcreated : e.Describes e.drainShot.1.created e.shot.created.toList :=
    describes_filterMap fun id hid => ((haccounts.mem_created id).1 hid).1
  have hupdated : e.Describes e.drainShot.1.updated e.shot.updated.toList :=
    describes_filterMap fun id hid => (haccounts.of_mem_updated id hid).2
  have hdeleted : e.drainShot.1.deleted = e.shot.deleted.toList.map NodeId.oid := rfl
  have hmem (ids : List NodeId) : id.oid ∈ ids.map NodeId.oid ↔ id ∈ ids :=
    List.mem_map_of_injective NodeId.oid_injective
  have hnew := fun h => htells (.inl ((hmem _).1 h))
  have hold := fun h => htells (.inr ((hmem _).1 h))
  rw [← hcreated.ids] at hnew
  rw [← hupdated.ids] at hold
  rw [Mirror.get?_apply_of_unreported hnew hold, hdeleted]
  simp only [hmem]

/-- A node that the batch leaves out is reportable if it was before and has not gone. -/
theorem untold_reportable (haccounts : Accounts e₀.nodes e.nodes e.shot) {id : NodeId}
    (htells : ¬e.Tells id) :
    id ∉ e.shot.deleted.toList ∧ e₀.isReportable id = true ↔ e.isReportable id = true := by
  constructor
  · rintro ⟨hstays, hold⟩
    have hlive : e.nodes.contains id = true := by
      by_contra hdead
      exact hstays ((haccounts.mem_deleted id).2 ⟨hold, by simpa using hdead⟩)
    exact (haccounts.reports_eq id (Arena.contains_of_reports hold) hlive).trans hold
  · intro hr
    have hlive : e.nodes.contains id = true := Arena.contains_of_reports hr
    have hold : e₀.nodes.contains id = true := by
      by_contra hnew
      exact htells (.inl ((haccounts.mem_created id).2 ⟨hr, by simpa using hnew⟩))
    refine ⟨fun hgone => ?_, (haccounts.reports_eq id hold hlive).symm.trans hr⟩
    rw [((haccounts.mem_deleted id).1 hgone).2] at hlive
    cases hlive

/-- A mirror that reflects an earlier engine reflects the present one once it was given the batch,
if that accounts for what came and went and leaves nothing out that is shown anew. -/
theorem apply (h : m.Reflects e₀) (haccounts : Accounts e₀.nodes e.nodes e.shot)
    (hdepicts : Depicts e₀.nodes e) : (m.apply e.drainShot.1).Reflects e := by
  refine ⟨fun id => ?_, fun id n p hn hp => ?_⟩
  · unfold OrderedMap.contains
    by_cases htells : e.Tells id
    · obtain ⟨hr, p, -, hp⟩ := h.get?_apply_told haccounts htells
      simp [hr, hp]
    · rw [get?_apply_untold haccounts htells, ← untold_reportable haccounts htells,
        ← h.contains_iff id]
      split
      · rename_i hgone
        simp [hgone]
      · rename_i hstays
        simp [hstays, OrderedMap.contains]
  · by_cases htells : e.Tells id
    · obtain ⟨-, q, hq, hp'⟩ := h.get?_apply_told haccounts htells
      obtain ⟨q', hq', hbare⟩ := payload_bare hn
      rw [hp] at hp'
      rw [hq] at hq'
      obtain rfl := Option.some.inj hp'
      obtain rfl := Option.some.inj hq'
      exact .of_bare hbare
    · rw [get?_apply_untold haccounts htells] at hp
      split at hp
      · cases hp
      · rename_i hstays
        have hold : e₀.isReportable id = true := by
          rw [← h.contains_iff, OrderedMap.contains, hp]
          rfl
        obtain ⟨n', hn', hr⟩ := isReportable_iff.1
          ((untold_reportable haccounts htells).1 ⟨hstays, hold⟩)
        obtain rfl : n = n' := Option.some.inj (hn.symm.trans hn')
        obtain ⟨n₀, hn₀, hagrees⟩ := (hdepicts.told hn hr).resolve_left htells
        exact (h.agrees hn₀ hp).trans hagrees

/-- What a mirror reflects is what nodes show and whether they are reportable. -/
theorem congr {e' : Engine} (h : m.Reflects e) (hnode : ∀ id, (e'.node? id).map
      (fun n => (n.kind.picture, n.flags.reportable)) = (e.node? id).map
      fun n => (n.kind.picture, n.flags.reportable)) : m.Reflects e' := by
  refine ⟨fun id => ?_, fun id n p hn hp => ?_⟩
  · have hreportable := congrArg (Option.any fun shown => shown.2) (hnode id)
    rw [h.contains_iff, isReportable, isReportable]
    rw [Option.any_map, Option.any_map] at hreportable
    exact iff_of_eq (congrArg (· = true) hreportable.symm)
  · have hnode := hnode id
    rw [hn, Option.map_some] at hnode
    obtain ⟨n', hn', hsame⟩ := Option.map_eq_some_iff.1 hnode.symm
    rw [← (Prod.mk.inj hsame).1]
    exact h.agrees hn' hp

end Mirror.Reflects

/-- Operations that take no batch give none. -/
theorem Operation.no_batch {op : Operation} (hop : op.drains = false) {depth : Nat}
    {r : Except EngineError Outcome} {e e' : Engine} (h : (op.act depth).Gives e r e')
    (b : ShotBatch) : r ≠ .ok (.batch b) := by
  rintro rfl
  cases op with
  | drainShot => cases hop
  | _ =>
    rcases Act.gives_map.1 h with ⟨a, -, ha⟩ | ⟨err, -, ha⟩
    · cases ha
    · cases ha

namespace Engine

variable {e e' : Engine}

/-- Taking the changes leaves what nodes show and whether they are reportable. -/
theorem shown_drainShot (e : Engine) (id : NodeId) : (e.drainShot.2.node? id).map
      (fun n => (n.kind.picture, n.flags.reportable)) = (e.node? id).map
      fun n => (n.kind.picture, n.flags.reportable) := by
  refine List.foldlRecOn (motive := fun e' : Engine => (e'.node? id).map
      (fun n => (n.kind.picture, n.flags.reportable)) = (e.node? id).map
      fun n => (n.kind.picture, n.flags.reportable)) _ _ rfl fun e' he' id' _ => ?_
  rw [node?_modifyNode, ← he']
  split
  · rename_i hid
    rw [hid, Option.map_map]
    rfl
  · rfl

/-- Right after a batch was taken it leaves nothing out. -/
theorem Faithful.start (hvalid : e.nodes.Valid) (hshot : e.shot = .empty)
    (hsound : e.nodes.Roomy → ∀ ⦃id n⦄, e.node? id = some n → n.kind.picture.Sound) :
    e.Faithful e.nodes := by
  refine ⟨hvalid, fun _ => ?_, fun hroom => ⟨hsound hroom, fun id n hn _ => .inr ⟨n, hn, .refl _⟩⟩⟩
  rw [hshot]
  exact .start hvalid (fun _ => rfl) fun _ => rfl

/-- The mirror of a consumer lags behind an engine by what the next batch tells. -/
def Lags (m : Mirror) (e : Engine) : Prop :=
  ∃ e₀ : Engine, (e.nodes.Roomy → m.Reflects e₀) ∧ e.Faithful e₀.nodes

/-- Taking a batch brings the mirror of the consumer up to date. -/
theorem Lags.drained {m : Mirror} (h : Lags m e) : Lags (m.apply e.drainShot.1) e.drainShot.2 ∧
    (e.nodes.Roomy → (m.apply e.drainShot.1).Reflects e.drainShot.2) := by
  obtain ⟨e₀, hmirror, hvalid, haccounts, hdepicts⟩ := h
  have hreflects (hroom : e.nodes.Roomy) : (m.apply e.drainShot.1).Reflects e.drainShot.2 :=
    ((hmirror hroom).apply (haccounts hroom) (hdepicts hroom)).congr e.shown_drainShot
  have hroomy (hroom : e.drainShot.2.nodes.Roomy) : e.nodes.Roomy :=
    Nat.lt_of_le_of_lt (drainShot_keeps (slots_stable e.nodes.slots.size).closed (fun _ he => he)
      (Nat.le_refl _)) hroom
  refine ⟨⟨e.drainShot.2, fun hroom => hreflects (hroomy hroom), .start ?_ rfl ?_⟩, hreflects⟩
  · exact drainShot_keeps valid_stable.closed (fun _ he => he) hvalid
  · intro hroom id n hn
    have hshown := e.shown_drainShot id
    rw [hn, Option.map_some] at hshown
    obtain ⟨n', hn', hsame⟩ := Option.map_eq_some_iff.1 hshown.symm
    rw [← (Prod.mk.inj hsame).1]
    exact (hdepicts (hroomy hroom)).sound hn'

/-- A run of operations keeps the mirror of a consumer that is given all batches from lagging behind
by more than what the next batch tells. -/
theorem Runs.lags {m : Mirror} {ops : List Operation} {rs : List (Except EngineError Outcome)}
    (hrun : e.Runs ops rs e') (hrefresh : ∀ op ∈ ops, op.refreshes = false) (h : Lags m e) :
    Lags (rs.foldl Mirror.given m) e' := by
  induction hrun generalizing m with
  | nil e => exact h
  | @cons e e₁ e₂ op ops depth r rs first rest ih =>
    have ih {m : Mirror} := @ih m fun op hop => hrefresh op (List.mem_cons_of_mem _ hop)
    cases hdrains : op.drains with
    | true =>
      obtain rfl : op = .drainShot := by cases op <;> first | rfl | cases hdrains
      obtain ⟨rfl, rfl⟩ := Runs.of_drainShot (.cons first (.nil e₁))
      exact ih h.drained.1
    | false =>
      rw [List.foldl_cons, m.given_of_ne (Operation.no_batch hdrains first)]
      obtain ⟨e₀, hmirror, hfaithful⟩ := h
      have hno {I : Engine → Prop} (hr : op.refreshes = true) : ∀ e, I e → I e.refresh := by
        rw [hrefresh op List.mem_cons_self] at hr
        cases hr
      have hkept {I : Engine → Prop} (hd : op.drains = true) :
          ∀ e, I e → I { e with shot := .empty } := by
        rw [hdrains] at hd
        cases hd
      refine ih ⟨e₀, fun hroom => hmirror ?_, ?_⟩
      · exact Nat.lt_of_le_of_lt (Operation.act_keeps (slots_stable e.nodes.slots.size).closed
          (fun _ _ he => he) hno hkept depth first (Nat.le_refl _)) hroom
      · exact Operation.act_keeps (faithful_closed e₀.nodes)
          (fun _ _ he => ⟨he.1, he.2.1, fun hroom => (he.2.2 hroom).congr rfl rfl⟩) hno hkept depth
          first hfaithful

/-- A consumer that is given all batches of a run that ends with taking one, short of any refresh,
has exactly the reportable nodes, whatever failed or was cut off. What it has for a node agrees with
the payload that the engine would give it now. -/
theorem Runs.mirrored {host : Host} {ops : List Operation} {rs : List (Except EngineError Outcome)}
    (hrun : host.start.Runs (ops ++ [.drainShot]) rs e)
    (hrefresh : ∀ op ∈ ops, op.refreshes = false) (hroom : e.nodes.Roomy) :
    (∀ oid, (Mirror.after rs).contains oid = e.isReportable (.ofOid oid)) ∧
    ∀ id, e.isReportable id = true → ∃ p q, (Mirror.after rs).get? id.oid = some p ∧
      e.payload id = some q ∧ p.Agrees q := by
  obtain ⟨e₁, rs₁, rs₂, rfl, hbefore, hlast⟩ := hrun.split
  obtain _ | ⟨first, ⟨⟩⟩ := hlast
  obtain ⟨rfl, rfl⟩ := Runs.of_drainShot (.cons first (.nil e))
  have hstart : Lags .empty host.start :=
    ⟨host.start, fun _ => .empty fun _ => rfl, .start Arena.valid_empty rfl fun _ id n hn => by
      cases hn⟩
  have hroom : e₁.nodes.Roomy :=
    Nat.lt_of_le_of_lt (drainShot_keeps (slots_stable e₁.nodes.slots.size).closed (fun _ he => he)
      (Nat.le_refl _)) hroom
  have hreflects := (hbefore.lags hrefresh hstart).drained.2 hroom
  have hmirror : Mirror.after (rs₁ ++ [.ok (.batch e₁.drainShot.1)]) =
      (rs₁.foldl Mirror.given .empty).apply e₁.drainShot.1 := by
    rw [Mirror.after, List.foldl_append]
    rfl
  rw [hmirror]
  refine ⟨fun oid => ?_, fun id hr => ?_⟩
  · rw [← NodeId.oid_ofOid oid, NodeId.ofOid_oid, Bool.eq_iff_iff]
    exact hreflects.contains_iff _
  · obtain ⟨p, hp⟩ := Option.isSome_iff_exists.1 ((hreflects.contains_iff id).2 hr)
    obtain ⟨n, hn, -⟩ := isReportable_iff.1 hr
    obtain ⟨q, hq, hbare⟩ := payload_bare hn
    exact ⟨p, q, hp, hq, (hreflects.agrees hn hp).trans (.of_bare hbare.symm)⟩

/-- A text changes after the consumer was told of it. -/
theorem Runs.mirrored_text :
    let host : Host :=
      { library :=
        { registry := { sources := .ofList [("Main", "<p>\x7b\x7b!n\x7d\x7d</p>")] } } }
    let ops : List Operation :=
      [.mount "Main" (.ofList [("n", .int 1)]), .drainShot, .setVar ⟨0, 0⟩ "n" (.int 2)]
    ∃ rs e, host.start.Runs (ops ++ [.drainShot]) rs e ∧
      ∃ p q, (Mirror.after rs).get? (NodeId.oid ⟨1, 0⟩) = some p ∧
        e.payload ⟨1, 0⟩ = some q ∧ p.Agrees q ∧ q.text = some "2" := by
  intro host ops
  have hsome : (host.start.runAt 4 (ops ++ [.drainShot])).isSome = true := by decide +kernel
  have hgood : (host.start.runAt 4 (ops ++ [.drainShot])).all (fun p =>
      p.2.nodes.slots.size < UInt32.size && p.2.isReportable ⟨1, 0⟩ &&
        (p.2.payload ⟨1, 0⟩).any (·.text == some "2")) = true := by
    decide +kernel
  obtain ⟨⟨rs, e⟩, hrun⟩ := Option.isSome_iff_exists.1 hsome
  rw [hrun, Option.all_some, Bool.and_eq_true, Bool.and_eq_true] at hgood
  obtain ⟨⟨hroom, hr⟩, htext⟩ := hgood
  have hroom : e.nodes.slots.size < UInt32.size := of_decide_eq_true hroom
  have hruns := runs_of_runAt hrun
  obtain ⟨p, q, hp, hq, hagrees⟩ := (Runs.mirrored hruns (by simp [ops, Operation.refreshes])
    hroom).2 ⟨1, 0⟩ hr
  rw [hq, Option.any_some] at htext
  exact ⟨rs, e, hruns, p, q, hp, hq, hagrees, eq_of_beq htext⟩

end Engine
end ReactiveView

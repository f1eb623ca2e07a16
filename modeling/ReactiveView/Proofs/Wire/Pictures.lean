import ReactiveView.Proofs.Mirror
import ReactiveView.Proofs.Wire.Messages

/-!
# Payloads of the engine

The tables of every element and of every carrier have each key once, whatever operations the engine
has gone through (`Engine.Runs.pictured`), and the values in them are data in memory. So the payloads
that the engine gives are payloads as they are kept in memory (`Engine.Runs.payload_regular`), and
what is written of them is read as it was.
-/

namespace ReactiveView
namespace Engine

variable {e e' : Engine}

/-- All nodes are shown soundly. -/
def Pictured (e : Engine) : Prop :=
  e.nodes.Valid ∧ ∀ ⦃id n⦄, e.node? id = some n → n.kind.picture.Sound

/-- A change that leaves nodes shown soundly. -/
theorem Pictured.step (he : e.Pictured)
    (hkeeps : ∀ I : Engine → Prop, OperationStable I → I e → I e')
    (h : ∀ ⦃id n⦄, e'.node? id = some n → n.kind.picture.Sound) : e'.Pictured :=
  ⟨hkeeps _ valid_stable he.1, h⟩

/-- Changing one node. -/
theorem Pictured.modifyNode (he : e.Pictured) {id : NodeId} {f : RenderNode → RenderNode}
    (hreportable : ∀ n, e.node? id = some n → (f n).flags.reportable = n.flags.reportable)
    (hsound : ∀ n, e.node? id = some n → n.kind.picture.Sound → (f n).kind.picture.Sound) :
    (e.modifyNode id f).Pictured := by
  refine he.step (fun _ h he => h.change id f hreportable he) fun id' n' hn' => ?_
  obtain ⟨n, hn, rfl⟩ := of_node?_modifyNode hn'
  split
  · next hid => exact hsound n (hid ▸ hn) (he.2 hn)
  · exact he.2 hn

/-- Reports change no node. -/
theorem Pictured.report (he : e.Pictured) (id : NodeId) : (e.report id).Pictured := by
  unfold Engine.report
  split
  · exact he
  · exact he

/-- Changing what an element shows. -/
theorem Pictured.modifyElement (he : e.Pictured) {id : NodeId} {data : ElementData}
    {f : ElementData → ElementData} (hdata : e.element? id = some data)
    (hsound : data.picture.Sound → (f data).picture.Sound) : (e.modifyElement id f).Pictured := by
  refine he.modifyNode (fun _ _ => rfl) fun n hn hold => ?_
  have hkind : n.kind = .element data := by
    unfold element? at hdata
    rw [hn] at hdata
    exact RenderKind.eq_of_element? hdata
  rw [hkind] at hold
  dsimp only
  rw [hkind]
  exact hsound hold

/-- The text of a node. -/
theorem Pictured.setNodeText (he : e.Pictured) (id : NodeId) (text : String) :
    (e.setNodeText id text).Pictured := by
  unfold Engine.setNodeText
  split
  · exact he
  · next n hn =>
    split
    · next data hkind =>
      have hdata : e.element? id = some data := by
        unfold element?
        rw [hn, Option.bind_some, hkind]
        rfl
      split
      · exact he
      · refine Pictured.report (he.modifyElement hdata fun hsound => ?_) id
        exact ⟨⟨hsound.1.attrs, hsound.1.style, hsound.1.data⟩, hsound.2⟩
    · next data hkind =>
      have hdrawn : (e.modifyKind id fun _ => .text { data with text := text }).Pictured :=
        he.modifyNode (fun _ _ => rfl) fun _ _ _ => trivial
      split
      · exact he
      · exact hdrawn.report id
    · exact he

/-- What is computed for an element is shown soundly. -/
theorem Pictured.showState (he : e.Pictured) {id : NodeId} {state : ElementState}
    (h : ∀ data, e.element? id = some data → state.Follows data.actions) :
    (e.showState id state).2.Pictured := by
  unfold Engine.showState
  split
  · exact he
  · next data hdata => exact he.modifyElement hdata fun _ => sound_of_follows (h data hdata)

/-- No operation shows a node otherwise than soundly. -/
theorem pictured_closed : OperationClosed Pictured where
  outside he hnodes hshot hroot hentries :=
    he.step (fun _ h he => h.outside he hnodes hshot hroot hentries) fun id n hn => by
      unfold node? at hn
      rw [hnodes] at hn
      exact he.2 hn
  enter he := he
  quiet id f hf he := he.modifyNode (fun n hn => (hf n hn).reportable) fun n hn hsound => by
    rw [(hf n hn).picture]
    exact hsound
  drop id he := by
    refine keeps_drop (I := Pictured) (fun hf he => he.modifyNode
      (fun n hn => (hf n hn).fixed.reportable) fun n hn hsound => ?_) (fun hn he => ?_) id he
    · rw [(hf n hn).picture]
      exact hsound
    · refine he.step (fun _ h he => h.remove hn he) fun id' m hm => ?_
      have hm : (Arena.remove _ _).2.get? id' = some m := hm
      rw [Arena.get?_remove] at hm
      split at hm
      · cases hm
      · exact he.2 hm
  track owner name _ _ he := keeps_track (I := Pictured) (fun hf he => he.modifyNode
    (fun n hn => (hf n hn).fixed.reportable) fun n hn hsound => by
      rw [(hf n hn).picture]
      exact hsound) owner name _ he
  purge id he := keeps_purge (I := Pictured) (fun hf he => he.modifyNode
    (fun n hn => (hf n hn).fixed.reportable) fun n hn hsound => by
      rw [(hf n hn).picture]
      exact hsound) id he
  edit id f hf he := by
    unfold editElement
    split
    · exact he
    · next data hdata =>
      have hedit := he.modifyElement hdata (sound_edit (hf data))
      dsimp only
      split
      · exact hedit.report id
      · exact hedit
  text id text he := he.setNodeText id text
  redraw := by
    intro e₀ e id state he₀ hcomputed he
    unfold Engine.redraw
    have hshown := he.showState fun data hdata => hcomputed he₀.1 data hdata
    split
    · exact hshown.report id
    · exact hshown
  present _ he₀ hcomputed he := he.showState fun data hdata => hcomputed he₀.1 data hdata
  draw f _ hf he := he.modifyNode (fun n hn => (hf n hn).reportable) fun n hn hsound =>
    hsound.of_base (hf n hn).base
  update _ he := he
  insert n hn he := he.step (fun _ h he => h.insert n he) fun id m hm => by
    rcases Arena.of_get?_insert hm with ⟨-, rfl⟩ | hm
    · exact hn.kind.sound
    · exact he.2 hm

/-- All nodes are shown soundly after any run. -/
theorem Runs.pictured {host : Host} {ops : List Operation}
    {rs : List (Except EngineError Outcome)} (hrun : host.start.Runs ops rs e) : e.Pictured := by
  have hstart : host.start.Pictured := ⟨Arena.valid_empty, fun _ _ hn => by cases hn⟩
  refine hrun.keeps pictured_closed (fun _ _ he => he) (fun _ _ _ e he => ?_) (fun _ _ _ _ he => he)
    hstart
  unfold refresh
  split
  · exact he
  · exact he

/-- The payload of a node that is shown soundly is one as it is kept in memory. -/
theorem Pictured.payload_regular (he : e.Pictured) {id : NodeId} {p : NodePayload}
    (hp : e.payload id = some p) : p.Regular := by
  obtain ⟨n, hn, rfl⟩ := Option.map_eq_some_iff.1 hp
  have hsound := he.2 hn
  have hnone : ∀ {α : Type}, (OrderedMap.empty : OrderedMap String α).Distinct := List.nodup_nil
  cases hkind : n.kind with
  | element data =>
    rw [hkind] at hsound
    obtain ⟨⟨hattrs, hstyle, hdata⟩, -⟩ := hsound
    refine ⟨hattrs, hstyle, ?_, ?_, ?_⟩
    · unfold OrderedMap.Distinct OrderedMap.keys at hdata ⊢
      dsimp only [OrderedMap.mapValues]
      rwa [List.map_map]
    · rintro _ hj
      obtain ⟨v, -, rfl⟩ := Option.map_eq_some_iff.1 hj
      exact v.regular_toJson
    · rintro e he
      obtain ⟨e, -, rfl⟩ := List.mem_map.1 he
      exact e.2.regular_toJson
  | carrier data =>
    rw [hkind] at hsound
    exact ⟨hsound, hnone, hnone, nofun, nofun⟩
  | _ => exact ⟨hnone, hnone, hnone, nofun, nofun⟩

/-- The payloads of an engine are payloads as they are kept in memory. -/
theorem Runs.payload_regular {host : Host} {ops : List Operation}
    {rs : List (Except EngineError Outcome)} (hrun : host.start.Runs ops rs e) {id : NodeId}
    {p : NodePayload} (hp : e.payload id = some p) : p.Regular := hrun.pictured.payload_regular hp

end Engine

/-- Whichever members were left out, the text of a message of either direction is read as that
message, and the text of a payload that an engine gives as that payload: with all members that were
there and no others, and tables in their order. This takes data that readers do not refuse for its
nesting and floats that read back, and a control whose value is not `null`, which would be taken for
no value. -/
theorem read_written :
    (∀ m : Message, m.Regular → m.toJson.Readable → Message.decoder.run m.toJson.render = some m) ∧
    (∀ m : Inbound, m.Regular → m.toJson.Readable → Inbound.decoder.run m.toJson.render = some m) ∧
    (∀ p : NodePayload, p.Regular → p.value ≠ some .null → p.toJson.Readable →
      NodePayload.decoder.run p.toJson.render = some p) ∧
    ∀ (host : Host) (ops : List Operation) (rs : List (Except EngineError Outcome)) (e : Engine),
      host.start.Runs ops rs e → ∀ (id : NodeId) (p : NodePayload), e.payload id = some p →
        p.value ≠ some .null → p.toJson.Readable →
          NodePayload.decoder.run p.toJson.render = some p :=
  ⟨fun _ hm => (Message.gives hm).run, fun _ hm => (Inbound.gives hm).run,
    fun _ hp hvalue => (NodePayload.gives _ hp hvalue).run,
    fun _ _ _ _ hrun _ _ hp hvalue =>
      (NodePayload.gives _ (hrun.payload_regular hp) hvalue).run⟩

/-- A control with a value and attached data, in an update, and a message about it. -/
theorem read_written_input :
    let host : Host :=
      { library :=
        { registry :=
          { sources := .ofList
              [("Main", "<input class=\"a\" value=\"!\x7bv\x7d\" data:k=\"!\x7bv\x7d\">")] } } }
    let ops : List Operation := [.mount "Main" (.ofList [("v", .list [.int 1, .null])])]
    ∃ rs e p, host.start.Runs ops rs e ∧ e.payload ⟨1, 0⟩ = some p ∧
      NodePayload.decoder.run p.toJson.render = some p ∧
      Message.decoder.run (Message.update [p]).toJson.render = some (.update [p]) ∧
      Inbound.decoder.run (Inbound.bind p.id .null).toJson.render = some (.bind p.id .null) := by
  intro host ops
  have hsome : (host.start.runAt 9 ops).isSome = true := by decide +kernel
  have hgood : (host.start.runAt 9 ops).all (fun r => (r.2.payload ⟨1, 0⟩).any fun p =>
      (p.value.map Json.render != some "null") &&
        ((Message.update [p]).toJson.height < Decoder.depthLimit && p.toJson.floats.isEmpty)) =
          true := by
    decide +kernel
  obtain ⟨⟨rs, e⟩, hrun⟩ := Option.isSome_iff_exists.1 hsome
  rw [hrun, Option.all_some, Option.any_eq_true] at hgood
  obtain ⟨p, hp, hgood⟩ := hgood
  rw [Bool.and_eq_true, Bool.and_eq_true] at hgood
  obtain ⟨hvalue, hheight, hfloats⟩ := hgood
  have hruns := Engine.runs_of_runAt hrun
  have hvalue : p.value ≠ some .null := by
    intro hnull
    rw [hnull] at hvalue
    exact bne_iff_ne.1 hvalue rfl
  have hheight : (Message.update [p]).toJson.height < Decoder.depthLimit := of_decide_eq_true hheight
  have hfloats : p.toJson.floats = [] := List.isEmpty_iff.1 hfloats
  have hread : p.toJson.Readable := by
    refine ⟨?_, by rw [hfloats]; exact List.forall_mem_nil _⟩
    simp [Message.toJson, Message.ofKind, Json.height, Json.heightOfMembers, Json.heightOfItems]
      at hheight
    omega
  have hupdate : (Message.update [p]).toJson.Readable := by
    refine ⟨hheight, ?_⟩
    simp [Message.toJson, Message.ofKind, Json.floats, Json.floatsOfMembers, Json.floatsOfItems,
      hfloats]
  have hbind : (Inbound.bind p.id .null).toJson.Readable := by
    constructor
    · simp [Inbound.toJson, Message.ofKind, Message.about, NodePayload.oidToJson, Json.height,
        Json.heightOfMembers, Decoder.depthLimit]
    · simp [Inbound.toJson, Message.ofKind, Message.about, NodePayload.oidToJson, Json.floats,
        Json.floatsOfMembers]
  have hregular : (Message.update [p]).Regular :=
    List.forall_mem_singleton.2 ⟨hruns.payload_regular hp, hvalue⟩
  exact ⟨rs, e, p, hruns, hp,
    read_written.2.2.2 host ops rs e hruns ⟨1, 0⟩ p hp hvalue hread,
    read_written.1 (.update [p]) hregular hupdate,
    read_written.2.1 (.bind p.id .null) ⟨.null, rfl⟩ hbind⟩

/-- Arrays that are nested more deeply than a reader may go are refused. -/
theorem Decoder.json_nested {k depth : Nat} (h : depth ≤ k + 1) :
    Decoder.json depth (Nat.repeat (fun j => Json.array [j]) (k + 1) .null).document = none := by
  induction k generalizing depth with
  | zero =>
    obtain rfl | rfl : depth = 0 ∨ depth = 1 := by omega
    · rfl
    · rfl
  | succ k ih =>
    obtain _ | _ | depth := depth
    · rfl
    · rfl
    · have hinner := ih (show depth + 1 ≤ k + 1 by omega)
      rw [Nat.repeat, Json.document, Decoder.json, jsonIn]
      rw [Decoder.json] at hinner
      simp [Decoder.enter, Json.documents, jsonItems, hinner]

/-- What is nested too deeply is written, but refused by readers. A control whose value is `null` is
written with its value, but read without one. -/
theorem not_read_written :
    let nested : Json := Nat.repeat (fun j => .array [j]) 126 .null
    let call : Message := .call "f" [nested]
    let control : NodePayload := { tag := "input", kind := "element", value := some .null }
    (call.Regular ∧ call.toJson.floats = [] ∧ Message.decoder.run call.toJson.render = none) ∧
    control.Regular ∧ control.toJson.Readable ∧
      ∃ p, NodePayload.decoder.run control.toJson.render = some p ∧ p.value = none := by
  intro nested call control
  have hnested (k : Nat) : (Nat.repeat (fun j => Json.array [j]) k .null).Regular := by
    induction k with
    | zero => exact ⟨.null, rfl⟩
    | succ k ih => exact Json.regular_array (List.forall_mem_singleton.2 ih)
  have hfloats (k : Nat) : (Nat.repeat (fun j => Json.array [j]) k .null).floats = [] := by
    induction k with
    | zero => rfl
    | succ k ih => rw [Nat.repeat, Json.floats, Json.floatsOfItems, ih]; rfl
  have hcall : call.toJson.floats = [] := by
    simp [call, Message.toJson, Message.ofKind, Json.floats, Json.floatsOfMembers,
      Json.floatsOfItems, nested, hfloats]
  have hrefused : Decoder.json Decoder.depthLimit call.toJson.document = none := by
    have hdeep : Decoder.jsonIn 126 nested.document = none :=
      @Decoder.json_nested 125 126 (Nat.le_refl _)
    simp [call, Message.toJson, Message.ofKind, Json.document, Json.memberDocuments, Json.documents,
      Decoder.json, Decoder.jsonIn, Decoder.jsonMembers, Decoder.jsonItems, Decoder.enter,
      Decoder.depthLimit, hdeep]
  have hcontrol : (NodePayload.decoder.run control.toJson.render).any (·.value.isNone) = true := by
    decide +kernel
  obtain ⟨p, hp, hvalue⟩ := (Option.any_eq_true _ _).1 hcontrol
  refine ⟨⟨List.forall_mem_singleton.2 (hnested 126), hcall, ?_⟩,
    ⟨List.nodup_nil, List.nodup_nil, List.nodup_nil, ?_, ?_⟩, ⟨by decide, ?_⟩,
    p, hp, Option.isNone_iff_eq_none.1 hvalue⟩
  · have hnone : ∀ x ∈ call.toJson.floats, Json.ReadsBack x := by
      rw [hcall]
      exact List.forall_mem_nil _
    rw [Decoder.run, Document.parse?_render hnone]
    simp [Message.decoder, Decoder.tagged, hrefused]
  · rintro _ ⟨⟩
    exact ⟨.null, rfl⟩
  · exact List.forall_mem_nil _
  · have hnone : control.toJson.floats = [] := by
      simp [control, NodePayload.toJson, NodePayload.member, NodePayload.memberOption, Json.floats,
        Json.floatsOfMembers, NodePayload.oidToJson, OrderedMap.isEmpty, OrderedMap.empty]
    rw [hnone]
    exact List.forall_mem_nil _

end ReactiveView

import ReactiveView.Proofs.Operation

/-!
# Edits of elements

Code edits elements: it adds, removes and toggles classes, sets and removes attributes and style
properties, and asks for the focus (`ElementEdit`). What an intrinsic does to an element is one of
these edits, or nothing but another text (`Intrinsic.callPure_edits`).

The state of an element is computed anew whenever its attributes are evaluated. Its edits are read
before the evaluation and applied after it (`Render.refreshElement_computes`). So they survive as long
as the expressions of the element do not edit the element itself: in whatever order edits and
evaluations follow each other (`Engine.EditHistory`), each edited attribute shows its last edit and
every other one what was computed last (`Engine.EditHistory.keeps_edits`).
-/

namespace ReactiveView

/-- An edit of an element by code. -/
inductive ElementEdit where
  /-- Add a class. -/
  | addClass (name : String)
  /-- Remove a class. -/
  | removeClass (name : String)
  /-- Add a class, or remove it if it was added. -/
  | toggleClass (name : String)
  /-- Give an attribute a text, or remove it. -/
  | setAttr (name : String) (text : Option String)
  /-- Give a style property a text, or remove it. -/
  | setStyle (property : String) (text : Option String)
  /-- Ask for the focus. -/
  | focus
deriving DecidableEq

namespace ElementEdit

/-- The classes that code has added, after an edit. -/
def onClasses : ElementEdit → List String → List String
  | addClass name, cs => if cs.contains name then cs else cs ++ [name]
  | removeClass name, cs => cs.filter (· ≠ name)
  | toggleClass name, cs => if cs.contains name then cs.filter (· ≠ name) else cs ++ [name]
  | _, cs => cs

/-- What is recorded of the edits of an element, after an edit. -/
def onOverlay : ElementEdit → ElementOverlay → ElementOverlay
  | setAttr name text, o => { o with attrs := o.attrs.insert name text }
  | setStyle property text, o => { o with style := o.style.insert property text }
  | focus, o => { o with focus := true }
  | _, o => o

/-- An element after an edit: edits of classes change the classes alone, and any other edit applies
all that is recorded. -/
def edited (edit : ElementEdit) (data : ElementData) : ElementData :=
  match edit with
  | addClass _ | removeClass _ | toggleClass _ =>
    { data with
      state := { data.state with extraClasses := edit.onClasses data.state.extraClasses } }
  | setAttr _ _ | setStyle _ _ | focus =>
    { data with
      overlay := edit.onOverlay data.overlay
      state := (edit.onOverlay data.overlay).apply data.state }

/-- What an edit gives an attribute, if it edits it. -/
def attr? (name : String) : ElementEdit → Option (Option String)
  | setAttr name' text => if name = name' then some text else none
  | _ => none

/-- What an edit gives a style property, if it edits it. -/
def style? (property : String) : ElementEdit → Option (Option String)
  | setStyle property' text => if property = property' then some text else none
  | _ => none

/-- Whether an edit asks for the focus. -/
def isFocus : ElementEdit → Bool
  | focus => true
  | _ => false

end ElementEdit

/-! ## What is recorded -/

namespace ElementOverlay

/-- Nothing is recorded twice. -/
structure Tidy (o : ElementOverlay) : Prop where
  /-- Each attribute is recorded once. -/
  attrs : o.attrs.Distinct
  /-- So is each style property. -/
  style : o.style.Distinct

/-- Edits of a table change what they are edits of. -/
theorem get?_foldl_edit {changes : List (String × Option String)}
    (h : (changes.map (·.1)).Nodup) (table : OrderedMap String String) (key : String) :
    (changes.foldl edit table).get? key =
      (OrderedMap.find? key changes).getD (table.get? key) := by
  induction changes generalizing table with
  | nil => rfl
  | cons change changes ih =>
    obtain ⟨key', text⟩ := change
    rw [List.map_cons, List.nodup_cons] at h
    rw [List.foldl_cons, ih h.2, OrderedMap.find?]
    split
    · rename_i hkey
      subst hkey
      -- no later change is one of the same key
      rw [OrderedMap.find?_eq_none.2 h.1]
      cases text with
      | some text => exact OrderedMap.get?_insert_self _ _ _
      | none => exact (OrderedMap.get?_erase _ _ _).trans (if_pos rfl)
    · rename_i hkey
      cases text with
      | some text => rw [edit, OrderedMap.get?_insert_of_ne _ (Ne.symm hkey)]
      | none => rw [edit, OrderedMap.get?_erase, if_neg (Ne.symm hkey)]

variable {o : ElementOverlay}

/-- What is recorded of an attribute is shown, and any other attribute is as it was. -/
theorem Tidy.get?_attrs_apply (h : o.Tidy) (s : ElementState) (name : String) :
    (o.apply s).attrs.get? name = (o.attrs.get? name).getD (s.attrs.get? name) :=
  get?_foldl_edit h.attrs s.attrs name

/-- What is recorded of a style property is shown, and any other one is as it was. -/
theorem Tidy.get?_style_apply (h : o.Tidy) (s : ElementState) (property : String) :
    (o.apply s).style.get? property = (o.style.get? property).getD (s.style.get? property) :=
  get?_foldl_edit h.style s.style property

/-- An edit is recorded once. -/
theorem Tidy.edit (h : o.Tidy) (edit : ElementEdit) : (edit.onOverlay o).Tidy := by
  cases edit with
  | setAttr name text => exact ⟨h.attrs.insert name text, h.style⟩
  | setStyle property text => exact ⟨h.attrs, h.style.insert property text⟩
  | _ => exact ⟨h.attrs, h.style⟩

/-- The last edit of an attribute is the one that is recorded. -/
theorem get?_attrs_edit (o : ElementOverlay) (edit : ElementEdit) (name : String) :
    (edit.onOverlay o).attrs.get? name = (edit.attr? name).or (o.attrs.get? name) := by
  cases edit with
  | setAttr name' text =>
    simp only [ElementEdit.onOverlay, ElementEdit.attr?, OrderedMap.get?_insert]
    split <;> rfl
  | _ => rfl

/-- The last edit of a style property is the one that is recorded. -/
theorem get?_style_edit (o : ElementOverlay) (edit : ElementEdit) (property : String) :
    (edit.onOverlay o).style.get? property = (edit.style? property).or (o.style.get? property) := by
  cases edit with
  | setStyle property' text =>
    simp only [ElementEdit.onOverlay, ElementEdit.style?, OrderedMap.get?_insert]
    split <;> rfl
  | _ => rfl

/-- It is recorded whether the focus was asked for. -/
theorem focus_edit (o : ElementOverlay) (edit : ElementEdit) :
    (edit.onOverlay o).focus = (o.focus || edit.isFocus) := by
  cases edit with
  | focus => exact (Bool.or_true _).symm
  | _ => exact (Bool.or_false _).symm

end ElementOverlay

/-! ## What was edited is shown -/

/-- The last of a list of edits that edits something. -/
def lastEdit (edits : List ElementEdit) (f : ElementEdit → Option (Option String)) :
    Option (Option String) :=
  edits.reverse.findSome? f

/-- A further edit is the last one of what it edits. -/
theorem lastEdit_concat (edits : List ElementEdit) (edit : ElementEdit)
    (f : ElementEdit → Option (Option String)) :
    lastEdit (edits ++ [edit]) f = (f edit).or (lastEdit edits f) := by
  unfold lastEdit
  rw [List.reverse_append, List.reverse_singleton, List.singleton_append, List.findSome?_cons]
  cases f edit <;> rfl

/-- An element shows its edits: it has the classes that the edits of classes leave, each attribute
and each style property that was edited has its last edit and any other one is as it was computed,
and the focus is asked for if an edit did so. -/
structure ElementData.ShowsEdits (data : ElementData) (edits : List ElementEdit)
    (computed : ElementState) : Prop where
  /-- The classes are those that the edits leave. -/
  classes : data.state.extraClasses = edits.foldl (fun cs edit => edit.onClasses cs) []
  /-- An attribute has its last edit, or what was computed. -/
  attrs : ∀ name, data.state.attrs.get? name =
    (lastEdit edits (·.attr? name)).getD (computed.attrs.get? name)
  /-- A style property has its last edit, or what was computed. -/
  style : ∀ property, data.state.style.get? property =
    (lastEdit edits (·.style? property)).getD (computed.style.get? property)
  /-- The focus was asked for by the attributes or by an edit. -/
  focus : data.state.focus = (computed.focus || edits.any (·.isFocus))

/-- An element has recorded its edits. -/
structure ElementData.Records (data : ElementData) (edits : List ElementEdit) : Prop extends
    data.overlay.Tidy where
  /-- The last edit of an attribute is recorded. -/
  lastAttr : ∀ name, data.overlay.attrs.get? name = lastEdit edits (·.attr? name)
  /-- The last edit of a style property is recorded. -/
  lastStyle : ∀ property, data.overlay.style.get? property = lastEdit edits (·.style? property)
  /-- It is recorded whether an edit asked for the focus. -/
  focus : data.overlay.focus = edits.any (·.isFocus)

namespace ElementData

variable {data : ElementData} {edits : List ElementEdit} {computed : ElementState}

/-- What is recorded is shown when it is applied. -/
theorem Records.showsEdits (h : data.Records edits) {state : ElementState}
    (hclasses : state.extraClasses = edits.foldl (fun cs edit => edit.onClasses cs) [])
    (hattrs : ∀ name, lastEdit edits (·.attr? name) = none →
      state.attrs.get? name = computed.attrs.get? name)
    (hstyle : ∀ property, lastEdit edits (·.style? property) = none →
      state.style.get? property = computed.style.get? property)
    (hfocus : (state.focus || data.overlay.focus) = (computed.focus || edits.any (·.isFocus))) :
    ({ data with state := data.overlay.apply state } : ElementData).ShowsEdits edits computed where
  classes := hclasses
  attrs name := by
    change (data.overlay.apply state).attrs.get? name = _
    rw [h.get?_attrs_apply, h.lastAttr]
    cases hlast : lastEdit edits (·.attr? name) with
    | none => exact hattrs name hlast
    | some text => rfl
  style property := by
    change (data.overlay.apply state).style.get? property = _
    rw [h.get?_style_apply, h.lastStyle]
    cases hlast : lastEdit edits (·.style? property) with
    | none => exact hstyle property hlast
    | some text => rfl
  focus := hfocus

/-- A further edit is recorded. -/
theorem Records.edit {data' : ElementData} (h : data.Records edits) (edit : ElementEdit)
    (hoverlay : data'.overlay = edit.onOverlay data.overlay) : data'.Records (edits ++ [edit]) := by
  refine ⟨hoverlay ▸ h.toTidy.edit edit, fun name => ?_, fun property => ?_, ?_⟩
  · rw [hoverlay, ElementOverlay.get?_attrs_edit, h.lastAttr, lastEdit_concat]
  · rw [hoverlay, ElementOverlay.get?_style_edit, h.lastStyle, lastEdit_concat]
  · rw [hoverlay, ElementOverlay.focus_edit, h.focus, List.any_append, List.any_cons, List.any_nil,
      Bool.or_false]

/-- An edit is recorded. -/
theorem Records.edited (h : data.Records edits) (edit : ElementEdit) :
    (edit.edited data).Records (edits ++ [edit]) :=
  h.edit edit (by cases edit <;> rfl)

/-- An edit of attributes, style properties or the focus is shown, and so are the earlier ones. -/
theorem Records.showsEdits_apply (hrecords : data.Records edits)
    (hshows : data.ShowsEdits edits computed) {edit : ElementEdit}
    (hclasses : ∀ cs, edit.onClasses cs = cs) :
    ({ data with
      overlay := edit.onOverlay data.overlay
      state := (edit.onOverlay data.overlay).apply data.state } : ElementData).ShowsEdits
        (edits ++ [edit]) computed := by
  have hedited : ({ data with overlay := edit.onOverlay data.overlay } : ElementData).Records
      (edits ++ [edit]) := hrecords.edit edit rfl
  -- what the further edit leaves unedited was unedited before
  have hbefore {f : ElementEdit → Option (Option String)}
      (h : lastEdit (edits ++ [edit]) f = none) : lastEdit edits f = none := by
    rw [lastEdit_concat, Option.or_eq_none_iff] at h
    exact h.2
  refine hedited.showsEdits ?_ (fun name h => ?_) (fun property h => ?_) ?_
  · rw [List.foldl_append, List.foldl_cons, List.foldl_nil, hclasses]
    exact hshows.classes
  · rw [hshows.attrs, hbefore h, Option.getD_none]
  · rw [hshows.style, hbefore h, Option.getD_none]
  · change (data.state.focus || (edit.onOverlay data.overlay).focus) = _
    rw [hshows.focus, ElementOverlay.focus_edit, hrecords.focus, List.any_append, List.any_cons,
      List.any_nil, Bool.or_false, Bool.or_assoc, ← Bool.or_assoc (edits.any _), Bool.or_self]

/-- An edit of the classes leaves what is shown of the other edits. -/
theorem ShowsEdits.classesEdited (h : data.ShowsEdits edits computed) {edit : ElementEdit}
    (hattrs : ∀ name, edit.attr? name = none) (hstyle : ∀ property, edit.style? property = none)
    (hfocus : edit.isFocus = false) :
    ({ data with
      state := { data.state with extraClasses := edit.onClasses data.state.extraClasses } } :
        ElementData).ShowsEdits (edits ++ [edit]) computed where
  classes := by
    rw [List.foldl_append, List.foldl_cons, List.foldl_nil, ← h.classes]
  attrs name := by
    rw [lastEdit_concat, hattrs, Option.none_or]
    exact h.attrs name
  style property := by
    rw [lastEdit_concat, hstyle, Option.none_or]
    exact h.style property
  focus := by
    rw [List.any_append, List.any_cons, List.any_nil, hfocus, Bool.or_false, Bool.or_false]
    exact h.focus

/-- An edit is shown at once, and the earlier ones stay. -/
theorem ShowsEdits.edited (hshows : data.ShowsEdits edits computed) (hrecords : data.Records edits)
    (edit : ElementEdit) : (edit.edited data).ShowsEdits (edits ++ [edit]) computed := by
  cases edit with
  | addClass name => exact hshows.classesEdited (fun _ => rfl) (fun _ => rfl) rfl
  | removeClass name => exact hshows.classesEdited (fun _ => rfl) (fun _ => rfl) rfl
  | toggleClass name => exact hshows.classesEdited (fun _ => rfl) (fun _ => rfl) rfl
  | setAttr name text => exact hrecords.showsEdits_apply hshows fun _ => rfl
  | setStyle property text => exact hrecords.showsEdits_apply hshows fun _ => rfl
  | focus => exact hrecords.showsEdits_apply hshows fun _ => rfl

/-- An element that was not edited shows what was computed. -/
theorem showsEdits_nil (hclasses : data.state.extraClasses = []) :
    data.ShowsEdits [] data.state :=
  ⟨hclasses, fun _ => rfl, fun _ => rfl, (Bool.or_false _).symm⟩

/-- An element that was not edited has recorded nothing. -/
theorem records_nil (h : data.overlay = {}) : data.Records [] := by
  have htidy : data.overlay.Tidy := h ▸ ⟨List.nodup_nil, List.nodup_nil⟩
  exact ⟨htidy, fun name => by rw [h]; rfl, fun property => by rw [h]; rfl, by rw [h]; rfl⟩

end ElementData

deriving instance DecidableEq for OrderedMap
deriving instance DecidableEq for ElementOverlay

/-- What is recorded of the edits of an element, and what it shows but for its text. -/
def ElementData.traits (data : ElementData) : ElementOverlay × ElementState :=
  (data.overlay, { data.state with text := none })

/-- An element shows its edits as soon as another one with the same traits does. -/
theorem ElementData.ShowsEdits.of_traits {data data' : ElementData} {edits : List ElementEdit}
    {computed : ElementState} (h : data.ShowsEdits edits computed)
    (htraits : data'.traits = data.traits) : data'.ShowsEdits edits computed := by
  have hclasses : data'.state.extraClasses = data.state.extraClasses :=
    congrArg (·.2.extraClasses) htraits
  have hattrs : data'.state.attrs = data.state.attrs := congrArg (·.2.attrs) htraits
  have hstyle : data'.state.style = data.state.style := congrArg (·.2.style) htraits
  have hfocus : data'.state.focus = data.state.focus := congrArg (·.2.focus) htraits
  exact ⟨hclasses ▸ h.classes, hattrs ▸ h.attrs, hstyle ▸ h.style, hfocus ▸ h.focus⟩

/-- What has recorded edits is the overlay alone. -/
theorem ElementData.Records.of_overlay {data data' : ElementData} {edits : List ElementEdit}
    (h : data.Records edits) (hoverlay : data'.overlay = data.overlay) : data'.Records edits :=
  ⟨hoverlay ▸ h.toTidy, hoverlay ▸ h.lastAttr, hoverlay ▸ h.lastStyle, hoverlay ▸ h.focus⟩

namespace Engine

variable {e e' e₁ : Engine} {id : NodeId}

/-- If an element is there after a change, then it was there before with the same traits. -/
def Spares (id : NodeId) (e e' : Engine) : Prop :=
  ∀ data', e'.element? id = some data' → ∃ data, e.element? id = some data ∧
    data'.traits = data.traits

/-- What is recorded of the edits of an element, and the classes that code has added to it. -/
def editsOf? (e : Engine) (id : NodeId) : Option (ElementOverlay × List String) :=
  (e.element? id).map fun data => (data.overlay, data.state.extraClasses)

/-- A node that is an element is found as one. -/
theorem element?_of_kind {n : RenderNode} {data : ElementData} (hn : e.node? id = some n)
    (hkind : n.kind = .element data) : e.element? id = some data := by
  unfold element?
  rw [hn, Option.bind_some, hkind]
  rfl

/-- A change that leaves the nodes spares every element. -/
theorem Spares.of_nodes (h : e'.nodes = e.nodes) (id : NodeId) : Spares id e e' := by
  intro data hdata
  unfold element? node? at hdata ⊢
  exact ⟨data, h ▸ hdata, rfl⟩

/-- Reports leave elements alone. -/
theorem element?_report (e : Engine) (id id' : NodeId) :
    (e.report id').element? id = e.element? id := by
  unfold report
  split <;> rfl

/-- Changing an element changes no other one. -/
theorem element?_modifyElement (e : Engine) (id id' : NodeId) (f : ElementData → ElementData) :
    (e.modifyElement id' f).element? id =
      if id = id' then (e.element? id').map f else e.element? id := by
  unfold element? modifyElement modifyKind
  rw [node?_modifyNode]
  split
  · cases e.node? id' with
    | none => rfl
    | some n =>
      obtain ⟨kind⟩ := n
      cases kind <;> rfl
  · rfl

/-- Showing a state changes no other element, and nothing of the element but its state. -/
theorem element?_showState (e : Engine) (id id' : NodeId) (state : ElementState) :
    (e.showState id state).2.element? id' = if id' = id then
      (e.element? id).map fun data => { data with state := state }
    else e.element? id' := by
  unfold showState
  split
  · rename_i hnone
    split
    · rename_i hid
      rw [hid, hnone, Option.map_none]
    · rfl
  · exact e.element?_modifyElement id' id _

/-- An edit of an element changes no other one. -/
theorem element?_editElement (e : Engine) (id id' : NodeId) (f : ElementData → ElementData) :
    (e.editElement id' f).element? id =
      if id = id' then (e.element? id').map f else e.element? id := by
  unfold editElement
  split
  · rename_i hnone
    split
    · rename_i hid
      rw [hid, hnone, Option.map_none]
    · rfl
  · dsimp only
    split
    · rw [element?_report, element?_modifyElement]
    · rw [element?_modifyElement]

/-- A text that code gives to a node spares every element. -/
theorem spares_setNodeText (e : Engine) (id id' : NodeId) (text : String) :
    Spares id e (e.setNodeText id' text) := by
  unfold setNodeText
  split
  · exact .of_nodes rfl id
  · rename_i n hn
    split
    · rename_i data hkind
      split
      · exact .of_nodes rfl id
      · intro data' hdata'
        dsimp only at hdata'
        rw [element?_report, element?_modifyElement] at hdata'
        split at hdata'
        · rename_i hid
          obtain ⟨data, hdata, rfl⟩ := Option.map_eq_some_iff.1 hdata'
          exact ⟨data, hid ▸ hdata, rfl⟩
        · exact ⟨data', hdata', rfl⟩
    · rename_i data hkind
      split
      · exact .of_nodes rfl id
      · intro data' hdata'
        rw [element?_report] at hdata'
        unfold element? modifyKind at hdata'
        rw [node?_modifyNode] at hdata'
        split at hdata'
        · -- a text node becomes no element
          rw [hn] at hdata'
          cases hdata'
        · exact ⟨data', hdata', rfl⟩
    · exact .of_nodes rfl id

end Engine

/-! ## Calls of intrinsics -/

namespace Intrinsic

/-- The edit that a call of an intrinsic is, and the node that it edits. -/
def edit? (e : Engine) (site : Site) (name : String) (args : List Value) :
    Option (NodeId × ElementEdit) :=
  let textEdit (f : String → Value → ElementEdit) : Option (NodeId × ElementEdit) :=
    (edit e site name args).toOption.map fun (id, text, v) => (id, f text v)
  match name with
  | "add_class" => textEdit fun text _ => .addClass text
  | "remove_class" => textEdit fun text _ => .removeClass text
  | "toggle_class" => textEdit fun text _ => .toggleClass text
  | "set_attr" => textEdit fun text v => .setAttr text (textUnless removesAttribute v)
  | "set_style" => textEdit fun text v => .setStyle text (textUnless (·.isNull) v)
  | "focus" => (target e site name args).toOption.map fun (id, _) => (id, .focus)
  | _ => none

variable {e : Engine} {site : Site} {name : String} {args : List Value}

/-- The outcome of a call that is an edit of a node, or none. -/
def Outcome.Edits (outcome : Outcome Value × Engine) (e : Engine) :
    Option (NodeId × ElementEdit) → Prop
  | some (id, edit) => outcome = (.ok .null, e.editElement id edit.edited)
  | none => ∀ id, Engine.Spares id e outcome.2

/-- A call edits a node if its arguments are right, and else it changes nothing. -/
theorem change_edits {β : Type} (args : Outcome β) {f : β → Outcome Engine}
    (g : β → NodeId × ElementEdit) (hf : ∀ b, f b = .ok (e.editElement (g b).1 (g b).2.edited)) :
    Outcome.Edits (change e (args >>= f)) e (args.toOption.map g) := by
  cases args with
  | error err => exact Engine.Spares.of_nodes rfl
  | ok b =>
    change change e (f b) = _
    rw [hf]
    rfl

/-- Asking the consumer leaves the nodes. -/
theorem nodes_ask (kind : RequestKind) : (ask e site name args kind).2.nodes = e.nodes := by
  unfold ask
  split
  · rfl
  · dsimp only
    unfold Engine.request
    split <;> rfl

/-- A call of an intrinsic that builds and updates nothing is an edit, or spares every element. -/
theorem callPure_edits (e : Engine) (site : Site) (name : String) (args : List Value) :
    Outcome.Edits (callPure e site name args) e (edit? e site name args) := by
  unfold callPure edit?
  split <;> dsimp only
  · exact change_edits (β := NodeId × String × Value) _ _ fun _ => rfl
  · exact change_edits _ _ fun _ => rfl
  · exact change_edits _ _ fun _ => rfl
  · -- a text is no edit
    intro id
    refine change_stable (Engine.Spares.of_nodes rfl id) fun p e' heq => ?_
    cases heq
    exact Engine.spares_setNodeText e id p.1 p.2.1
  · exact change_edits _ _ fun _ => rfl
  · exact change_edits _ _ fun _ => rfl
  · exact change_edits _ _ fun _ => rfl
  · split
    · exact Engine.Spares.of_nodes rfl
    · exact Engine.Spares.of_nodes rfl
  · exact Engine.Spares.of_nodes rfl
  · exact Engine.Spares.of_nodes (nodes_ask _)
  · exact Engine.Spares.of_nodes (nodes_ask _)
  · exact Engine.Spares.of_nodes (nodes_ask _)
  · split
    all_goals first
      | contradiction
      | exact Engine.Spares.of_nodes rfl

/-- A call that is an edit of an element edits it and no other one. -/
theorem element?_of_edit? {id : NodeId} {edit : ElementEdit}
    (h : edit? e site name args = some (id, edit)) (id' : NodeId) :
    (callPure e site name args).2.element? id' =
      if id' = id then (e.element? id).map edit.edited else e.element? id' := by
  have hedits := callPure_edits e site name args
  rw [h] at hedits
  rw [show callPure e site name args = _ from hedits]
  exact e.element?_editElement id' id _

end Intrinsic

/-! ## Evaluation -/

namespace Render

/-- What the attributes and the text of an element give, before any edit is applied. -/
def computedState (re : Reentry) (id : NodeId) (n : RenderNode) (data : ElementData) :
    Act ElementState := do
  let s : ElementSite := ⟨id, n.context, n.frame, n.flags.reactive⟩
  let state ← data.actions.foldlM (applyAction re s) (initialState data)
  applyText re s state data.textExpr

/-- The evaluation of an element that is there ends in a state of the engine, and gives what is
computed for the element. -/
def Computes (re : Reentry) (id : NodeId) (e : Engine) (computed : ElementState) (e₁ : Engine) :
    Prop :=
  ∃ n data, e.node? id = some n ∧ n.kind = .element data ∧
    (computedState re id n data).Gives e (.ok computed) e₁

/-- An action leaves the classes that code has added. -/
theorem applyAction_extraClasses (re : Reentry) (s : ElementSite) (state : ElementState)
    (action : AttrAction) : (applyAction re s state action).Returns fun state' =>
      state'.extraClasses = state.extraClasses := by
  cases action with
  | classSwitch name v =>
    cases v with
    | _ => exact Act.returns_bind fun on => Act.returns_pure rfl
  | asset attr v =>
    refine Act.returns_bind fun path => ?_
    cases path with
    | none => exact Act.returns_pure rfl
    | some path => exact Act.returns_bind fun _ => Act.returns_pure rfl
  | styleEntry property v =>
    refine Act.returns_bind fun v => Act.returns_pure ?_
    unfold ElementState.setStyle
    split <;> rfl
  | style v =>
    refine Act.returns_bind fun v => Act.returns_pure ?_
    unfold ElementState.setStyles
    split <;> rfl
  | dynamicSet name v =>
    refine Act.returns_bind fun v => Act.returns_pure ?_
    unfold ElementState.setDynamic ElementState.setAttr
    repeat' split
    all_goals rfl
  | plain name v => exact Act.returns_bind fun _ => Act.returns_pure rfl
  | bindValue name => exact Act.returns_bind fun _ => Act.returns_pure rfl
  | data name v => exact Act.returns_bind fun _ => Act.returns_pure rfl
  | classes v => exact Act.returns_bind fun _ => Act.returns_pure rfl
  | type v => exact Act.returns_bind fun _ => Act.returns_pure rfl
  | value v => exact Act.returns_bind fun _ => Act.returns_pure rfl
  | localize v => exact Act.returns_bind fun _ => Act.returns_pure rfl
  | _ => exact Act.returns_pure rfl

/-- Evaluation gives the classes that code had added when it began. -/
theorem computedState_extraClasses (re : Reentry) (id : NodeId) (n : RenderNode)
    (data : ElementData) : (computedState re id n data).Returns fun state =>
      state.extraClasses = data.state.extraClasses := by
  have hfold (s : ElementSite) (actions : List AttrAction) (state : ElementState) :
      Act.Returns (actions.foldlM (applyAction re s) state) fun state' =>
        state'.extraClasses = state.extraClasses := by
    induction actions generalizing state with
    | nil => exact Act.returns_pure rfl
    | cons action actions ih =>
      rw [List.foldlM_cons]
      refine Act.returns_bind_of (applyAction_extraClasses re s state action) fun state₁ h₁ => ?_
      rw [← h₁]
      exact ih state₁
  refine Act.returns_bind_of (hfold _ _ _) fun state hstate => ?_
  cases data.textExpr with
  | none => exact Act.returns_pure hstate
  | some e => exact Act.returns_bind fun _ => Act.returns_bind fun _ => Act.returns_pure hstate

/-- The state of an element is what is computed, with the edits that were recorded when its
evaluation began. -/
theorem elementState_eq (re : Reentry) (id : NodeId) (n : RenderNode) (data : ElementData) :
    elementState re id n data = do return data.overlay.apply (← computedState re id n data) := by
  unfold elementState computedState
  rw [bind_assoc]

/-- An update of an element computes its state, and then shows it with the edits that were recorded
before: an edit that comes in between stays recorded, but it is not shown, and the classes are those
that had been added before. -/
theorem refreshElement_computes {re : Reentry} {id : NodeId} {e e' : Engine} {changed : Bool}
    {n : RenderNode} {data : ElementData} (hn : e.node? id = some n)
    (hkind : n.kind = .element data) (h : (refreshElement re id).Gives e (.ok changed) e') :
    ∃ computed e₁, (computedState re id n data).Gives e (.ok computed) e₁ ∧
      computed.extraClasses = data.state.extraClasses ∧
      ∀ id', e'.element? id' = if id' = id then
        (e₁.element? id).map fun data₁ => { data₁ with state := data.overlay.apply computed }
      else e₁.element? id' := by
  rw [refreshElement_eq, Act.gives_read_bind, hn] at h
  dsimp only at h
  rw [hkind] at h
  dsimp only at h
  rw [elementState_eq] at h
  rcases Act.gives_bind.1 h with ⟨state, e₁, hstate, hshow⟩ | ⟨err, -, herr⟩
  · rcases Act.gives_bind.1 hstate with ⟨computed, e₂, hcomputed, hpure⟩ | ⟨err, -, herr⟩
    · obtain ⟨hstate, rfl⟩ := Act.gives_pure.1 hpure
      obtain rfl := Except.ok.inj hstate
      obtain ⟨-, rfl⟩ := Act.gives_step.1 hshow
      exact ⟨computed, e₁, hcomputed, computedState_extraClasses re id n data hcomputed,
        fun id' => e₁.element?_showState id id' _⟩
    · cases herr
  · cases herr

end Render

/-! ## The history of an element -/

open Render

/-- What happens to an element from a moment on at which it was not edited yet. Code edits it; its
attributes are evaluated, by expressions that do not edit the element itself; and anything happens
that leaves its traits. The edits are listed in their order, and the state is what was computed
last, before any edit was applied. -/
inductive Engine.EditHistory (id : NodeId) : List ElementEdit → ElementState → Engine → Prop
  /-- The element was not edited yet. -/
  | start {e : Engine} {data : ElementData} (hdata : e.element? id = some data)
      (hoverlay : data.overlay = {}) (hclasses : data.state.extraClasses = []) :
      EditHistory id [] data.state e
  /-- Code edits the element. -/
  | edit {edits : List ElementEdit} {computed : ElementState} {e : Engine} {site : Site}
      {name : String} {args : List Value} {edit : ElementEdit} (h : EditHistory id edits computed e)
      (hcall : Intrinsic.edit? e site name args = some (id, edit)) :
      EditHistory id (edits ++ [edit]) computed (Intrinsic.callPure e site name args).2
  /-- The attributes of the element are evaluated. -/
  | refresh {edits : List ElementEdit} {before computed : ElementState} {e e₁ e' : Engine}
      {re : Reentry} {changed : Bool} (h : EditHistory id edits before e)
      (hcomputed : Computes re id e computed e₁) (hleaves : e₁.editsOf? id = e.editsOf? id)
      (hrefresh : (refreshElement re id).Gives e (.ok changed) e') :
      EditHistory id edits computed e'
  /-- Something else happens. -/
  | other {edits : List ElementEdit} {computed : ElementState} {e e' : Engine}
      (h : EditHistory id edits computed e) (hspares : e.Spares id e') :
      EditHistory id edits computed e'

namespace Engine

variable {e e' : Engine} {id : NodeId} {edits : List ElementEdit} {computed : ElementState}

/-- A call of an intrinsic that builds and updates nothing adds to a history the edit that it is, if
it is one of the element. -/
theorem EditHistory.call (h : EditHistory id edits computed e) (site : Site) (name : String)
    (args : List Value) : EditHistory id
      (edits ++ (((Intrinsic.edit? e site name args).filter (·.1 = id)).map (·.2)).toList) computed
      (Intrinsic.callPure e site name args).2 := by
  cases hcall : Intrinsic.edit? e site name args with
  | none =>
    have hspares := Intrinsic.callPure_edits e site name args
    rw [hcall] at hspares
    simpa using h.other (hspares id)
  | some p =>
    obtain ⟨id', edit⟩ := p
    by_cases hid : id' = id
    · subst hid
      simpa [Option.filter] using h.edit hcall
    · -- an edit of another element
      have hspares : Spares id e (Intrinsic.callPure e site name args).2 := by
        intro data hdata
        rw [Intrinsic.element?_of_edit? hcall, if_neg (Ne.symm hid)] at hdata
        exact ⟨data, hdata, rfl⟩
      simpa [Option.filter, hid] using h.other hspares

/-- Whatever the history of an element, it shows its edits and has recorded them. -/
theorem EditHistory.shows_and_records (h : EditHistory id edits computed e) {data : ElementData}
    (hdata : e.element? id = some data) : data.ShowsEdits edits computed ∧ data.Records edits := by
  induction h generalizing data with
  | start hstart hoverlay hclasses =>
    obtain rfl := Option.some.inj (hstart.symm.trans hdata)
    exact ⟨ElementData.showsEdits_nil hclasses, ElementData.records_nil hoverlay⟩
  | edit _ hcall ih =>
    rw [Intrinsic.element?_of_edit? hcall, if_pos rfl] at hdata
    obtain ⟨before, hbefore, rfl⟩ := Option.map_eq_some_iff.1 hdata
    obtain ⟨hshows, hrecords⟩ := ih hbefore
    exact ⟨hshows.edited hrecords _, hrecords.edited _⟩
  | refresh _ hcomputed hleaves hrefresh ih =>
    obtain ⟨n, before, hn, hkind, hcomputed⟩ := hcomputed
    obtain ⟨computed', e₁', hcomputed', hclasses, helements⟩ :=
      refreshElement_computes hn hkind hrefresh
    obtain ⟨hok, rfl⟩ := Prod.ext_iff.1 (Option.some.inj (hcomputed'.symm.trans hcomputed))
    obtain rfl := Except.ok.inj hok
    rw [helements, if_pos rfl] at hdata
    obtain ⟨between, hbetween, rfl⟩ := Option.map_eq_some_iff.1 hdata
    have hbefore := element?_of_kind hn hkind
    obtain ⟨hshows, hrecords⟩ := ih hbefore
    -- the expressions of the element have not edited it
    have hoverlay : between.overlay = before.overlay := by
      rw [editsOf?, editsOf?, hbetween, hbefore] at hleaves
      exact congrArg Prod.fst (Option.some.inj hleaves)
    have hrecords := hrecords.of_overlay hoverlay
    refine ⟨?_, hrecords.of_overlay rfl⟩
    rw [← hoverlay]
    exact hrecords.showsEdits (hclasses.trans hshows.classes) (fun _ _ => rfl) (fun _ _ => rfl)
      (by rw [hrecords.focus])
  | other _ hspares ih =>
    obtain ⟨before, hbefore, htraits⟩ := hspares data hdata
    obtain ⟨hshows, hrecords⟩ := ih hbefore
    exact ⟨hshows.of_traits htraits, hrecords.of_overlay (congrArg (·.1) htraits)⟩

/-- No edit of an element is lost, in whatever order edits and evaluations of its attributes follow
each other, as long as no expression of the element edits the element itself: it has the classes
that the edits leave, each attribute and each style property that was edited has its last edit and
every other one what was computed last, and the focus is asked for if an edit did so. -/
theorem EditHistory.keeps_edits (h : EditHistory id edits computed e) {data : ElementData}
    (hdata : e.element? id = some data) : data.ShowsEdits edits computed :=
  (h.shows_and_records hdata).1

/-- An element with the attributes `title="{t}"` and `lang="{l}"` is given another title and a
class, and then its attributes are evaluated. -/
theorem EditHistory.keeps_edits_title :
    let host : Host :=
      { library :=
        { registry :=
          { sources := .ofList [("Main", "<b title=\"\x7bt\x7d\" lang=\"\x7bl\x7d\"></b>")] } } }
    let e := host.start.after 9 [.mount "Main" (.ofList [("t", .str "x"), ("l", .str "en")])]
    let site : Site := ⟨⟨0, 0⟩, none, some ⟨1, 0⟩, none⟩
    let edits : List ElementEdit := [.setAttr "title" (some "late"), .addClass "on"]
    let e₁ := (Intrinsic.callPure e site "set_attr" [.str "title", .str "late"]).2
    let e₂ := (Intrinsic.callPure e₁ site "add_class" [.str "on"]).2
    ∃ e₃ changed computed data, (refreshElement (.within 9) ⟨1, 0⟩).Gives e₂ (.ok changed) e₃ ∧
      e₃.element? ⟨1, 0⟩ = some data ∧ data.ShowsEdits edits computed ∧
      computed.attrs.get? "title" = some "x" ∧ data.state.attrs.get? "title" = some "late" ∧
      data.state.attrs.get? "lang" = some "en" ∧ data.state.extraClasses = ["on"] := by
  intro host e site edits e₁ e₂
  have hstart : (e.element? ⟨1, 0⟩).any (fun data =>
      data.overlay = {} && data.state.extraClasses.isEmpty) = true := by decide +kernel
  have htitle : Intrinsic.edit? e site "set_attr" [.str "title", .str "late"] =
      some (⟨1, 0⟩, .setAttr "title" (some "late")) := by decide +kernel
  have hclass : Intrinsic.edit? e₁ site "add_class" [.str "on"] =
      some (⟨1, 0⟩, .addClass "on") := by decide +kernel
  have hrefresh : ((refreshElement (.within 9) ⟨1, 0⟩).runOn e₂).any (fun p =>
      p.1.isOk && (p.2.element? ⟨1, 0⟩).isSome) = true := by decide +kernel
  have hcomputed : (e₂.node? ⟨1, 0⟩).any (fun n => (e₂.element? ⟨1, 0⟩).any (fun data =>
      ((computedState (.within 9) ⟨1, 0⟩ n data).runOn e₂).any (fun p =>
        p.1.toOption.any fun computed => computed.attrs.get? "title" = some "x" &&
          computed.attrs.get? "lang" = some "en" &&
            p.2.editsOf? ⟨1, 0⟩ = e₂.editsOf? ⟨1, 0⟩))) = true := by decide +kernel
  clear_value e
  obtain ⟨data₀, hdata₀, hunedited⟩ := (Option.any_eq_true _ _).1 hstart
  rw [Bool.and_eq_true, decide_eq_true_eq, List.isEmpty_iff] at hunedited
  have hhistory : EditHistory ⟨1, 0⟩ edits data₀.state e₂ :=
    ((EditHistory.start hdata₀ hunedited.1 hunedited.2).edit htitle).edit hclass
  clear_value e₂
  obtain ⟨⟨r, e₃⟩, hrefresh, hlive⟩ := (Option.any_eq_true _ _).1 hrefresh
  obtain ⟨n, hn, h⟩ := (Option.any_eq_true _ _).1 hcomputed
  obtain ⟨before, hbefore, h⟩ := (Option.any_eq_true _ _).1 h
  obtain ⟨⟨r', e₂'⟩, hcomputed, h⟩ := (Option.any_eq_true _ _).1 h
  rw [Bool.and_eq_true] at hlive
  obtain ⟨data, hdata⟩ := Option.isSome_iff_exists.1 hlive.2
  obtain _ | changed := r
  · cases hlive.1
  obtain _ | computed := r'
  · cases h
  simp only [Except.toOption, Option.any_some, Bool.and_eq_true, decide_eq_true_eq] at h
  obtain ⟨⟨htitle, hlang⟩, hleaves⟩ := h
  have hkind : n.kind = .element before := by
    unfold element? at hbefore
    rw [hn, Option.bind_some] at hbefore
    exact RenderKind.eq_of_element? hbefore
  have hshows : data.ShowsEdits edits computed :=
    (hhistory.refresh ⟨n, before, hn, hkind, hcomputed⟩ hleaves hrefresh).keeps_edits hdata
  exact ⟨e₃, changed, computed, data, hrefresh, hdata, hshows, htitle, hshows.attrs "title",
    (hshows.attrs "lang").trans hlang, hshows.classes⟩

end Engine
end ReactiveView

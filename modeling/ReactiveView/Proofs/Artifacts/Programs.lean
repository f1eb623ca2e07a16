import ReactiveView.Program.Artifact
import ReactiveView.Proofs.Artifacts.Decoding

/-!
# Programs read back

Every part of a compiled program is given back by the reader of its written form, by induction on
the part: literals, expressions, statements, attribute actions, steps and procedures. What has to be
assumed are the limits of the form. Lines and numbers of procedures are words of 32 bits
(`Program.words`), floats read back, and nothing is nested too deeply
(`Artifact.run_decoder`).
-/

namespace ReactiveView

open Decoder (Gives Choice Fields)

/-! ## Literals and operators -/

theorem Literal.gives (n : Nat) (l : Literal) : Gives n decoder l.toJson l := by
  refine Gives.mono (n := n + 1) ?_ (Nat.le_succ n)
  cases l with
  | null => exact .choice_unit fun _ => rfl
  | bool b => exact .choice (.bool n b) fun _ _ => Gives.map_carrying
  | int i => exact .choice (.int64 n i) fun _ _ => Gives.map_carrying
  | float x => exact .choice (.float n x) fun _ _ => Gives.map_carrying
  | str s => exact .choice (.text n s) fun _ _ => Gives.map_carrying

theorem UnaryOp.gives (n : Nat) (op : UnaryOp) : Gives n decoder (.str op.name) op :=
  .oneOf (by cases op <;> rfl)

theorem BinaryOp.gives (n : Nat) (op : BinaryOp) : Gives n decoder (.str op.name) op :=
  .oneOf (by cases op <;> rfl)

theorem LogicalOp.gives (n : Nat) (op : LogicalOp) : Gives n decoder (.str op.name) op :=
  .oneOf (by cases op <;> rfl)

theorem AssignOp.gives (n : Nat) (op : AssignOp) : Gives n decoder (.str op.name) op :=
  .oneOf (by cases op <;> rfl)

/-! ## Expressions -/

namespace Expr

theorem listToJson_eq_map (es : List Expr) : listToJson es = es.map toJson := by
  induction es with
  | nil => rfl
  | cons e es ih => rw [listToJson, ih, List.map_cons]

/-- The written form of a part of a format string. -/
def partToJson : FormatPart → Json
  | .text s => .tagged "Lit" (.str s)
  | .expr e => .tagged "Expr" e.toJson

theorem partsToJson_eq_map (parts : List FormatPart) :
    partsToJson parts = parts.map partToJson := by
  induction parts with
  | nil => rfl
  | cons part parts ih => cases part <;> simp only [partsToJson, ih, List.map_cons, partToJson]

theorem gives_part {n : Nat} {d : Decoder Expr} (hd : ∀ e, Gives n d e.toJson e)
    (part : FormatPart) : Gives n (partDecoder d) (partToJson part) part := by
  refine Gives.mono (n := n + 1) ?_ (Nat.le_succ n)
  cases part with
  | text s => exact .choice (.text n s) fun _ _ => Gives.map_carrying
  | expr e => exact .choice (hd e) fun _ _ => Gives.map_carrying

theorem document_ne_null (e : Expr) : e.toJson.document ≠ .null := by
  cases e <;> simp [toJson, Json.tagged, Json.document]

/-- One level of an expression. -/
theorem gives_level {n : Nat} {d : Decoder Expr} (hd : ∀ e, Gives n d e.toJson e) (e : Expr) :
    Gives (n + 1) (decodeLevel d) e.toJson e := by
  have hlist (es : List Expr) : Gives n (.list d) (.array (listToJson es)) es := by
    rw [listToJson_eq_map]
    exact .list fun e _ => hd e
  unfold decodeLevel
  cases e <;> rw [toJson]
  case literal l =>
    exact .choice (Literal.gives n l) fun _ _ => Gives.map_carrying
  case name x => exact .choice (.text n x) fun _ _ => Gives.map_carrying
  case this => exact .choice_unit fun _ => rfl
  case member object field =>
    exact .choice (.pair (hd object) (.text n field)) fun _ _ => Gives.map_carrying
  case index object key =>
    exact .choice (.pair (hd object) (hd key)) fun _ _ => Gives.map_carrying
  case call callee args =>
    exact .choice (.pair (hd callee) (hlist args)) fun _ _ => Gives.map_carrying
  case list items =>
    exact .choice (hlist items) fun _ _ => Gives.map_carrying
  case unary op operand =>
    exact .choice (.pair (UnaryOp.gives n op) (hd operand)) fun _ _ => Gives.map_carrying
  case binary op left right =>
    exact .choice (.triple (BinaryOp.gives n op) (hd left) (hd right)) fun _ _ => Gives.map_carrying
  case logical op left right =>
    exact .choice (.triple (LogicalOp.gives n op) (hd left) (hd right)) fun _ _ =>
      Gives.map_carrying
  case cond condition yes no =>
    exact .choice (.triple (hd condition) (hd yes) (hd no)) fun _ _ => Gives.map_carrying
  case format parts =>
    rw [partsToJson_eq_map]
    exact .choice (.list fun part _ => gives_part hd part) fun _ _ => Gives.map_carrying

theorem gives (n : Nat) (e : Expr) : Gives n decoder e.toJson e :=
  .nested (P := fun _ => True) (fun _ _ hd e _ => gives_level (fun e => hd e trivial) e) trivial

end Expr

theorem DynamicExpr.gives (n : Nat) (e : DynamicExpr) : Gives n decoder e.toJson e := by
  have hvars : Gives n (.list .text) (.texts e.freeVars) e.freeVars :=
    .list fun s _ => .text n s
  refine .record rfl (by decide) fun depth hread => ?_
  simp [Fields.required_of_ne, hread (Expr.gives n e.expr) (by simp),
    hread (.bool n e.reactive) (by simp), hread hvars (by simp), hread (.text n e.source) (by simp)]

/-! ## Statements -/

namespace Stmt

mutual

/-- The lines in a statement. -/
def words : Stmt → List Nat
  | assign line .. => [line]
  | function line _ _ body => line :: wordsOfList body
  | branch line _ yes no => line :: (wordsOfList yes ++ wordsOfList no)
  | loop line _ _ body => line :: wordsOfList body
  | ret line _ => [line]
  | expr line _ => [line]

/-- The lines in statements. -/
def wordsOfList : List Stmt → List Nat
  | [] => []
  | s :: ss => s.words ++ wordsOfList ss

end

theorem listToJson_eq_map (ss : List Stmt) : listToJson ss = ss.map toJson := by
  induction ss with
  | nil => rfl
  | cons s ss ih => rw [listToJson, ih, List.map_cons]

theorem wordsOfList_eq_flatMap (ss : List Stmt) : wordsOfList ss = ss.flatMap words := by
  induction ss with
  | nil => rfl
  | cons s ss ih => rw [wordsOfList, ih, List.flatMap_cons]

/-- A statement whose lines are words of 32 bits. -/
def Fits (s : Stmt) : Prop := ∀ w ∈ s.words, w < UInt32.size

/-- One level of a statement. -/
theorem gives_level {n : Nat} {d : Decoder Stmt} (hd : ∀ s, Fits s → Gives n d s.toJson s)
    (s : Stmt) (hs : s.Fits) : Gives (n + 1) (decodeLevel d) s.toJson s := by
  have hlist (ss : List Stmt) (h : ∀ w ∈ wordsOfList ss, w < UInt32.size) :
      Gives n (.list d) (.array (listToJson ss)) ss := by
    rw [listToJson_eq_map]
    refine .list fun s hs => hd s fun w hw => h w ?_
    rw [wordsOfList_eq_flatMap]
    exact List.mem_flatMap.2 ⟨s, hs, hw⟩
  unfold decodeLevel
  cases s <;> rw [toJson]
  case assign line target op value =>
    have hline : Gives n lineDecoder (.ofNat line) line := .word n (hs line (by simp [words]))
    refine .choice (.record rfl (by simp) fun depth hread => ?_) fun _ _ h => h
    simp [Fields.required_of_ne, hread (.text n target) (by simp),
      hread (AssignOp.gives n op) (by simp), hread (Expr.gives n value) (by simp),
      hread hline (by simp)]
  case function line name params body =>
    have hline : Gives n lineDecoder (.ofNat line) line := .word n (hs line (by simp [words]))
    have hparams : Gives n (.list .text) (.texts params) params := .list fun x _ => .text n x
    have hbody := hlist body fun w hw => hs w (by simp [words, hw])
    refine .choice (.record rfl (by simp) fun depth hread => ?_) fun _ _ h => h
    simp [Fields.required_of_ne, hread (.text n name) (by simp), hread hparams (by simp),
      hread hbody (by simp), hread hline (by simp)]
  case branch line condition yes no =>
    have hline : Gives n lineDecoder (.ofNat line) line := .word n (hs line (by simp [words]))
    have hyes := hlist yes fun w hw => hs w (by simp [words, hw])
    have hno := hlist no fun w hw => hs w (by simp [words, hw])
    refine .choice (.record rfl (by simp) fun depth hread => ?_) fun _ _ h => h
    simp [Fields.required_of_ne, hread (Expr.gives n condition) (by simp), hread hyes (by simp),
      hread hno (by simp), hread hline (by simp)]
  case loop line var iterable body =>
    have hline : Gives n lineDecoder (.ofNat line) line := .word n (hs line (by simp [words]))
    have hbody := hlist body fun w hw => hs w (by simp [words, hw])
    refine .choice (.record rfl (by simp) fun depth hread => ?_) fun _ _ h => h
    simp [Fields.required_of_ne, hread (.text n var) (by simp),
      hread (Expr.gives n iterable) (by simp), hread hbody (by simp), hread hline (by simp)]
  case ret line value =>
    have hline : Gives n lineDecoder (.ofNat line) line := .word n (hs line (by simp [words]))
    have hvalue : Gives n (.nullable Expr.decoder) (.ofOption Expr.toJson value) value :=
      .nullable fun e _ => ⟨Expr.gives n e, Expr.document_ne_null e⟩
    refine .choice (.record rfl (by simp) fun depth hread => ?_) fun _ _ h => h
    simp [Fields.required_of_ne, hread hvalue (by simp), hread hline (by simp)]
  case expr line value =>
    have hline : Gives n lineDecoder (.ofNat line) line := .word n (hs line (by simp [words]))
    refine .choice (.record rfl (by simp) fun depth hread => ?_) fun _ _ h => h
    simp [Fields.required_of_ne, hread (Expr.gives n value) (by simp), hread hline (by simp)]

theorem gives (n : Nat) {s : Stmt} (hs : s.Fits) : Gives n decoder s.toJson s :=
  .nested (fun _ _ => gives_level) hs

end Stmt

/-! ## Attributes -/

theorem AttrValue.gives (n : Nat) (v : AttrValue) : Gives n decoder v.toJson v := by
  refine Gives.mono (n := n + 1) ?_ (Nat.le_succ n)
  cases v with
  | empty => exact .choice_unit fun _ => rfl
  | literal s => exact .choice (.text n s) fun _ _ => Gives.map_carrying
  | dynamic e =>
    exact .choice (DynamicExpr.gives n e) fun _ _ => Gives.map_carrying

namespace AttrAction

/-- A name with a value is given back, under either key. -/
theorem gives_named (n : Nat) {key : String} (hkey : key ≠ "value")
    (make : String → AttrValue → AttrAction) (name : String) (v : AttrValue) :
    Gives n (namedDecoder key make) (named key name v) (make name v) := by
  refine .record rfl (by simp [hkey]) fun depth hread => ?_
  simp [Fields.required_of_ne, hkey, hread (.text n name) (by simp),
    hread (AttrValue.gives n v) (by simp)]

theorem gives (n : Nat) (a : AttrAction) : Gives n decoder a.toJson a := by
  refine Gives.mono (n := n + 1) ?_ (Nat.le_succ n)
  cases a with
  | plain name v => exact .choice (gives_named n (by decide) .plain name v) fun _ _ h => h
  | scope name v => exact .choice (gives_named n (by decide) .scope name v) fun _ _ h => h
  | classSwitch name v =>
    exact .choice (gives_named n (by decide) .classSwitch name v) fun _ _ h => h
  | styleEntry property v =>
    exact .choice (gives_named n (by decide) .styleEntry property v) fun _ _ h => h
  | dynamicSet name v =>
    exact .choice (gives_named n (by decide) .dynamicSet name v) fun _ _ h => h
  | data name v => exact .choice (gives_named n (by decide) .data name v) fun _ _ h => h
  | asset attr v => exact .choice (gives_named n (by decide) .asset attr v) fun _ _ h => h
  | reactive => exact .choice_unit fun _ => rfl
  | style v => exact .choice (AttrValue.gives n v) fun _ _ => Gives.map_carrying
  | classes v => exact .choice (AttrValue.gives n v) fun _ _ => Gives.map_carrying
  | type v => exact .choice (AttrValue.gives n v) fun _ _ => Gives.map_carrying
  | value v => exact .choice (AttrValue.gives n v) fun _ _ => Gives.map_carrying
  | localize v => exact .choice (AttrValue.gives n v) fun _ _ => Gives.map_carrying
  | consume keys =>
    have hkeys : Gives n (.nullable .text) (.ofOption .str keys) keys :=
      .nullable fun s _ => ⟨.text n s, by simp [Json.document]⟩
    exact .choice hkeys fun _ _ => Gives.map_carrying
  | ref name | cref name | onInit name | onRender name | bindValue name | setFalse name =>
    exact .choice (.text n name) fun _ _ => Gives.map_carrying

end AttrAction

theorem gives_bindings (n : Nat) (bindings : List (String × AttrValue)) :
    Gives n bindingsDecoder (bindingsToJson bindings) bindings :=
  .list fun binding _ => .pair (.text n binding.1) (AttrValue.gives n binding.2)

/-! ## Steps -/

theorem DynamicExpr.gives_optional (n : Nat) (e? : Option DynamicExpr) :
    Gives n (.nullable decoder) (.ofOption toJson e?) e? :=
  .nullable fun e _ => ⟨e.gives n, by simp [toJson, Json.document]⟩

namespace TextSource

theorem gives (n : Nat) (source : TextSource) : Gives n decoder source.toJson source := by
  refine Gives.mono (n := n + 1) ?_ (Nat.le_succ n)
  cases source with
  | literal s => exact .choice (.text n s) fun _ _ => Gives.map_carrying
  | dynamic e => exact .choice (e.gives n) fun _ _ => Gives.map_carrying

theorem gives_optional (n : Nat) (source? : Option TextSource) :
    Gives n (.nullable decoder) (.ofOption toJson source?) source? :=
  .nullable fun source _ => ⟨source.gives n, by
    cases source <;> simp [toJson, Json.tagged, Json.document]⟩

end TextSource

theorem ComponentName.gives (n : Nat) (name : ComponentName) :
    Gives n decoder name.toJson name := by
  refine Gives.mono (n := n + 1) ?_ (Nat.le_succ n)
  cases name with
  | fixed s => exact .choice (.text n s) fun _ _ => Gives.map_carrying
  | dynamic e => exact .choice (e.gives n) fun _ _ => Gives.map_carrying

theorem BranchOp.gives (n : Nat) {b : BranchOp} (hb : b.body < UInt32.size) :
    Gives n decoder b.toJson b := by
  refine .record rfl (by decide) fun depth hread => ?_
  simp [Fields.required_of_ne, hread (DynamicExpr.gives_optional n b.predicate) (by simp),
    hread (.word n hb) (by simp)]

namespace Op

mutual

/-- The numbers of procedures, the indices and the lines in a step. -/
def words : Op → List Nat
  | .element _ _ content => wordsOfContent content
  | .text _ => []
  | .component _ _ defaultSlot namedSlots => defaultSlot.toList ++ namedSlots.map (·.2)
  | .condition branches _ => branches.map (·.body)
  | .loop _ _ _ body empty => body :: empty.toList
  | .set _ _ body => [body]
  | .slot _ fallback => fallback.toList
  | .code body lineOffset => lineOffset :: Stmt.wordsOfList body
  | .carrier _ _ index _ _ => [index]
  | .scope _ ops => wordsOfList ops
  | .signal _ _ => []
  | .fragment ops => wordsOfList ops

/-- The words in what goes inside an element. -/
def wordsOfContent : ElementContent → List Nat
  | .text _ => []
  | .children ops => wordsOfList ops

/-- The words in steps. -/
def wordsOfList : List Op → List Nat
  | [] => []
  | op :: ops => op.words ++ wordsOfList ops

end

theorem listToJson_eq_map (ops : List Op) : listToJson ops = ops.map toJson := by
  induction ops with
  | nil => rfl
  | cons op ops ih => rw [listToJson, ih, List.map_cons]

theorem wordsOfList_eq_flatMap (ops : List Op) : wordsOfList ops = ops.flatMap words := by
  induction ops with
  | nil => rfl
  | cons op ops ih => rw [wordsOfList, ih, List.flatMap_cons]

/-- A step whose numbers are words of 32 bits. -/
def Fits (op : Op) : Prop := ∀ w ∈ op.words, w < UInt32.size

theorem gives_proc (n : Nat) {id? : Option ProcId} (h : ∀ id ∈ id?, id < UInt32.size) :
    Gives n (.nullable procDecoder) (procToJson id?) id? :=
  .nullable fun id hid => ⟨.word n (h id hid), by simp [Json.ofNat, Json.document]⟩

/-- The written form of the content for a slot. -/
def slotToJson (slot : String × ProcId) : Json := .array [.str slot.1, .ofNat slot.2]

/-- Steps are given back, if each step is. -/
theorem gives_list {n : Nat} {d : Decoder Op} (hd : ∀ op, Fits op → Gives n d op.toJson op)
    (ops : List Op) (h : ∀ w ∈ wordsOfList ops, w < UInt32.size) :
    Gives n (.list d) (.array (listToJson ops)) ops := by
  rw [listToJson_eq_map]
  refine .list fun op hop => hd op fun w hw => h w ?_
  rw [wordsOfList_eq_flatMap]
  exact List.mem_flatMap.2 ⟨op, hop, hw⟩

theorem gives_content {n : Nat} {d : Decoder Op} (hd : ∀ op, Fits op → Gives n d op.toJson op)
    (content : ElementContent) (h : ∀ w ∈ wordsOfContent content, w < UInt32.size) :
    Gives n (contentDecoder d) (contentToJson content) content := by
  refine Gives.mono (n := n + 1) ?_ (Nat.le_succ n)
  cases content with
  | text source =>
    rw [contentToJson]
    exact .choice (source.gives n) fun _ _ => Gives.map_carrying
  | children ops =>
    rw [contentToJson]
    exact .choice (gives_list hd ops h) fun _ _ => Gives.map_carrying

/-- One level of a step. -/
theorem gives_level {n : Nat} {d : Decoder Op} (hd : ∀ op, Fits op → Gives n d op.toJson op)
    (op : Op) (hop : op.Fits) : Gives (n + 1) (decodeLevel d) op.toJson op := by
  have hattrs (attrs : List AttrAction) :
      Gives n (.list AttrAction.decoder) (.array (attrs.map AttrAction.toJson)) attrs :=
    .list fun a _ => a.gives n
  unfold decodeLevel
  cases op <;> rw [toJson]
  case element tag attrs content =>
    have hcontent := gives_content hd content fun w hw => hop w (by simp [words, hw])
    refine .choice (.record rfl (by simp) fun depth hread => ?_) fun _ _ h => h
    simp [Fields.required_of_ne, hread (.text n tag) (by simp), hread (hattrs attrs) (by simp),
      hread hcontent (by simp)]
  case text source => exact .choice (source.gives n) fun _ _ => Gives.map_carrying
  case component name attrs defaultSlot namedSlots =>
    have hdefault : Gives n (.nullable procDecoder) (procToJson defaultSlot) defaultSlot :=
      gives_proc n fun id hid => hop id (by simp [words, Option.mem_toList.2 hid])
    have hnamed : Gives n (.list (.pair .text procDecoder)) (.array (namedSlots.map slotToJson))
        namedSlots :=
      .list fun slot hslot => .pair (.text n slot.1) (.word n (hop slot.2 (by
        simp only [words, List.mem_append, List.mem_map]
        exact .inr ⟨slot, hslot, rfl⟩)))
    change Gives (n + 1) _ (.tagged "Component" (.object [("name", _), ("attrs", _),
      ("default_slot", _), ("named_slots", .array (namedSlots.map slotToJson))])) _
    refine .choice (.record rfl (by simp) fun depth hread => ?_) fun _ _ h => h
    simp [Fields.required_of_ne, Fields.optional_of_ne, hread (name.gives n) (by simp),
      hread (hattrs attrs) (by simp), hread hdefault (by simp), hread hnamed (by simp)]
  case condition branches reactive =>
    have hbranches : Gives n (.list BranchOp.decoder) (.array (branches.map BranchOp.toJson))
        branches :=
      .list fun b hb => BranchOp.gives n (hop b.body (by
        simp only [words, List.mem_map]
        exact ⟨b, hb, rfl⟩))
    refine .choice (.record rfl (by simp) fun depth hread => ?_) fun _ _ h => h
    simp [Fields.required_of_ne, hread hbranches (by simp), hread (.bool n reactive) (by simp)]
  case loop var iterable identity body empty =>
    have hbody : Gives n procDecoder (.ofNat body) body := .word n (hop body (by simp [words]))
    have hempty : Gives n (.nullable procDecoder) (procToJson empty) empty :=
      gives_proc n fun id hid => hop id (by simp [words, Option.mem_toList.2 hid])
    refine .choice (.record rfl (by simp) fun depth hread => ?_) fun _ _ h => h
    simp [Fields.required_of_ne, Fields.optional_of_ne, hread (.text n var) (by simp),
      hread (iterable.gives n) (by simp), hread (DynamicExpr.gives_optional n identity) (by simp),
      hread hbody (by simp), hread hempty (by simp)]
  case set name value body =>
    have hbody : Gives n procDecoder (.ofNat body) body := .word n (hop body (by simp [words]))
    refine .choice (.record rfl (by simp) fun depth hread => ?_) fun _ _ h => h
    simp [Fields.required_of_ne, hread (.text n name) (by simp), hread (value.gives n) (by simp),
      hread hbody (by simp)]
  case slot name fallback =>
    have hname : Gives n (.nullable .text) (.ofOption .str name) name :=
      .nullable fun s _ => ⟨.text n s, by simp [Json.document]⟩
    have hfallback : Gives n (.nullable procDecoder) (procToJson fallback) fallback :=
      gives_proc n fun id hid => hop id (by simp [words, Option.mem_toList.2 hid])
    refine .choice (.record rfl (by simp) fun depth hread => ?_) fun _ _ h => h
    simp [Fields.optional_of_ne, hread hname (by simp), hread hfallback (by simp)]
  case code body lineOffset =>
    have hbody : Gives n (.list Stmt.decoder) (.array (Stmt.listToJson body)) body := by
      rw [Stmt.listToJson_eq_map]
      refine .list fun s hs => Stmt.gives n fun w hw => hop w ?_
      rw [words, Stmt.wordsOfList_eq_flatMap]
      exact List.mem_cons_of_mem _ (List.mem_flatMap.2 ⟨s, hs, hw⟩)
    have hline : Gives n Stmt.lineDecoder (.ofNat lineOffset) lineOffset :=
      .word n (hop lineOffset (by simp [words]))
    refine .choice (.record rfl (by simp) fun depth hread => ?_) fun _ _ h => h
    simp [Fields.required_of_ne, hread hbody (by simp), hread hline (by simp)]
  case carrier kind everywhere index attrs text =>
    have hkind : Gives n (.oneOf (CarrierKind.all.map fun k => (k.name, k))) (.str kind.name)
        kind := .oneOf (by cases kind <;> rfl)
    have hindex : Gives n (.word UInt32.size) (.ofNat index) index :=
      .word n (hop index (by simp [words]))
    refine .choice (.record rfl (by simp) fun depth hread => ?_) fun _ _ h => h
    simp [Fields.required_of_ne, Fields.optional_of_ne, hread hkind (by simp),
      hread (.bool n everywhere) (by simp), hread hindex (by simp),
      hread (gives_bindings n attrs) (by simp), hread (TextSource.gives_optional n text) (by simp)]
  case scope bindings ops =>
    have hops := gives_list hd ops fun w hw => hop w (by simp [words, hw])
    refine .choice (.record rfl (by simp) fun depth hread => ?_) fun _ _ h => h
    simp [Fields.required_of_ne, hread (gives_bindings n bindings) (by simp), hread hops (by simp)]
  case signal key action =>
    refine .choice (.record rfl (by simp) fun depth hread => ?_) fun _ _ h => h
    simp [Fields.required_of_ne, hread (.text n key) (by simp), hread (.text n action) (by simp)]
  case fragment ops =>
    have hops := gives_list hd ops fun w hw => hop w (by simp [words, hw])
    exact .choice hops fun _ _ => Gives.map_carrying

theorem gives (n : Nat) {op : Op} (hop : op.Fits) : Gives n decoder op.toJson op :=
  .nested (fun _ _ => gives_level) hop

end Op

/-! ## Programs -/

namespace Program

/-- The numbers of procedures, the indices and the lines in a program. -/
def words (p : Program) : List Nat := p.procedures.flatMap fun proc => Op.wordsOfList proc.ops

theorem gives (n : Nat) {p : Program} (hp : ∀ w ∈ p.words, w < UInt32.size) :
    Gives n decoder p.toJson p := by
  have hproc (proc : Procedure) (hproc : proc ∈ p.procedures) : Gives n procedureDecoder
      (.object [("kind", .str proc.kind.name), ("ops", .array (Op.listToJson proc.ops))]) proc := by
    have hkind : Gives n (.oneOf (ProcKind.all.map fun k => (k.name, k))) (.str proc.kind.name)
        proc.kind := .oneOf (by cases proc.kind <;> rfl)
    have hops : Gives n (.list Op.decoder) (.array (Op.listToJson proc.ops)) proc.ops :=
      Op.gives_list (fun op hop => Op.gives n hop) proc.ops fun w hw =>
        hp w (List.mem_flatMap.2 ⟨proc, hproc, hw⟩)
    refine .record rfl (by decide) fun depth hread => ?_
    simp [Fields.required_of_ne, hread hkind (by simp), hread hops (by simp)]
  refine .record rfl (by decide) fun depth hread => ?_
  simp [Fields.required_of_ne, hread (.text n p.name) (by simp), hread (.text n p.hash) (by simp),
    hread (.list hproc) (by simp)]

end Program

namespace Artifact

theorem gives (n : Nat) {a : Artifact} (hversion : a.version < UInt32.size)
    (hp : ∀ w ∈ a.program.words, w < UInt32.size) : Gives n decoder a.toJson a := by
  refine .record rfl (by decide) fun depth hread => ?_
  simp [Fields.required_of_ne, hread (.word n hversion) (by simp),
    hread (.text n a.keptIn) (by simp), hread (Program.gives n hp) (by simp)]

/-- The text of an artifact is read as that artifact, if its numbers are words, its floats read back
and it is nested less deeply than a text may be. -/
theorem run_decoder {a : Artifact} (hversion : a.version < UInt32.size)
    (hwords : ∀ w ∈ a.program.words, w < UInt32.size)
    (hfloats : ∀ x ∈ a.toJson.floats, Json.ReadsBack x)
    (hheight : a.toJson.height < Decoder.depthLimit) :
    Decoder.run decoder a.toJson.render = some a := by
  rw [Decoder.run, Document.parse?_render hfloats]
  exact gives Decoder.depthLimit hversion hwords hfloats Decoder.depthLimit (Nat.le_refl _) hheight

end Artifact
end ReactiveView

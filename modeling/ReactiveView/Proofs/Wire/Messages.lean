import ReactiveView.Proofs.Wire.Records
import ReactiveView.Wire.Message

/-!
# Messages read as they were written

Payloads and messages of both directions read as they were written, within the limits of reading
(`Json.Readable`), whichever of their members were left out.
-/

namespace ReactiveView

open Decoder (Gives)

/-- What was written can be read: it is not nested too deeply, and its floats read back. -/
structure Json.Readable (j : Json) : Prop where
  /-- Readers refuse what is nested more deeply. -/
  height : j.height < Decoder.depthLimit
  /-- Reading a numeral scales its digits in floating point, which may round twice. -/
  floats : ∀ x ∈ j.floats, ReadsBack x

theorem Decoder.Gives.run {α : Type} {d : Decoder α} {j : Json} {a : α}
    (h : Gives depthLimit d j a) (hj : j.Readable) : d.run j.render = some a := by
  rw [Decoder.run, Document.parse?_render hj.floats]
  exact h hj.floats depthLimit (Nat.le_refl _) hj.height

/-! ## Members of payloads -/

namespace NodePayload

/-- A member that is there under a condition. -/
def slot (present : Bool) (j : Json) : Option Json := if present then some j else none

theorem member_eq (key : String) (present : Bool) (j : Json) :
    member key present j = Json.present [(key, slot present j)] := by cases present <;> rfl

theorem memberOption_eq {α : Type} (key : String) (f : α → Json) (a? : Option α) :
    memberOption key f a? = Json.present [(key, a?.map f)] := by cases a? <;> rfl

/-- The members of a payload, with those that are left out. -/
def slots (p : NodePayload) : List (String × Option Json) :=
  [("i", some (oidToJson p.id)), ("p", p.parent.map oidToJson), ("n", some (.str p.tag)),
    ("k", some (.str p.kind)), ("a", slot (!p.attrs.isEmpty) (table .str p.attrs)),
    ("C", slot (!p.classes.isEmpty) (.texts p.classes)),
    ("s", slot (!p.style.isEmpty) (table .str p.style)), ("t", p.text.map .str),
    ("#", slot p.rebind (.bool true)), ("$", slot p.restyle (.bool true)),
    ("v", p.value.map fun j => j), ("type", p.valueType.map .str),
    ("d", slot (!p.data.isEmpty) (table (fun j => j) p.data)),
    ("x", slot (p.ns != .html) (.str p.ns.name)), ("f", slot p.focus (.bool true)),
    ("l", slot p.localize (.bool true))]

theorem toJson_eq (p : NodePayload) : p.toJson = .object (Json.present p.slots) := by
  have hid : [("i", oidToJson p.id)] = Json.present [("i", some (oidToJson p.id))] := rfl
  have hnames : [("n", Json.str p.tag), ("k", Json.str p.kind)] =
      Json.present [("n", some (.str p.tag)), ("k", some (.str p.kind))] := rfl
  rw [toJson, hid, hnames]
  simp only [member_eq, memberOption_eq, ← Json.present_append, List.cons_append, List.nil_append,
    slots]

/-- A payload as it is kept in memory: the keys of its tables are different from each other, and the
data in it is data in memory. -/
structure Regular (p : NodePayload) : Prop where
  /-- Each attribute is there once. -/
  attrs : p.attrs.Distinct
  /-- So is each style property. -/
  style : p.style.Distinct
  /-- So is each piece of data. -/
  data : p.data.Distinct
  /-- The value of a control. -/
  value : ∀ j ∈ p.value, j.Regular
  /-- Attached data. -/
  values : ∀ e ∈ p.data.entries, e.2.Regular

/-! ## Readers of members -/

theorem gives_oid (n : Nat) (oid : UInt64) : Gives n oidDecoder (oidToJson oid) oid := by
  intro hfloats depth hdepth hheight
  have hlt := oid.toNat_lt_size
  have hmin : Int64.minValue.toInt = -9223372036854775808 := rfl
  have hinteger : Gives n (Decoder.integer 0 (UInt64.size - 1)) (.int oid.toNat) oid.toNat :=
    .integer n (by omega) (by omega) (by omega) (by omega)
  have hread := hinteger hfloats depth hdepth hheight
  rw [oidDecoder, Decoder.map, Decoder.word, Decoder.map, oidToJson, hread]
  simp

theorem gives_table {α : Type} {n : Nat} {d : Decoder α} {f : α → Json} {m : OrderedMap String α}
    (hm : m.Distinct) (hd : ∀ e ∈ m.entries, Gives n d (f e.2) e.2) :
    Gives n (tableDecoder d) (table f m) m := by
  intro hfloats depth hdepth hheight
  rw [tableDecoder, Decoder.map, table, Gives.table hd hfloats depth hdepth hheight,
    Option.map_some, OrderedMap.ofList_entries hm]

theorem gives_namespace (n : Nat) (ns : Namespace) :
    Gives n namespaceDecoder (.str ns.name) ns := .oneOf (by cases ns <;> decide)

/-- A table that is left out is empty. -/
theorem eq_empty_of_isEmpty {κ α : Type} {m : OrderedMap κ α} (h : (!m.isEmpty) = false) :
    m = .empty := by
  obtain ⟨es⟩ := m
  cases es with
  | nil => rfl
  | cons e es => cases h

section

variable {α : Type} {n : Nat} {d : Decoder α} {f : Decoder.Fields} {name : String}
  {members : List (String × Option Json)} (hf : f.Holds n members)
include hf

/-- A member that is always written. -/
theorem reads_fixed {j : Json} {a default : α} (hmem : (name, some j) ∈ members)
    (hj : Gives n d j a) : f.withDefault name default d = some a :=
  hf.withDefault hmem (by rintro _ ⟨⟩; exact hj) nofun

/-- A member that is left out under a condition, for which its absence stands. -/
theorem reads_slot {present : Bool} {j : Json} {a default : α}
    (hmem : (name, slot present j) ∈ members) (hj : Gives n d j a)
    (hdefault : present = false → a = default) : f.withDefault name default d = some a := by
  cases present with
  | false => exact hf.withDefault hmem nofun fun _ => hdefault rfl
  | true => exact reads_fixed hf hmem hj

/-- A member that is left out if it is absent. -/
theorem reads_option {g : α → Json} {a? : Option α} (hmem : (name, a?.map g) ∈ members)
    (h : ∀ a ∈ a?, Gives n d (g a) a ∧ ∀ depth, d depth .null ≠ some a) :
    f.withDefault name none (.nullable d) = some a? := by
  cases a? with
  | none => exact hf.withDefault hmem nofun fun _ => rfl
  | some a => exact reads_fixed hf hmem ((h a rfl).1.nullable_some (h a rfl).2)

end

/-- A payload is read as it was written, if the value of its control is not `null`. -/
theorem gives (n : Nat) {p : NodePayload} (hp : p.Regular) (hvalue : p.value ≠ some .null) :
    Gives n decoder p.toJson p := by
  rw [toJson_eq]
  refine .ofSlots rfl (by decide) fun f hf => ?_
  have htable {m : OrderedMap String String} (hm : m.Distinct) :
      Gives n (tableDecoder .text) (table .str m) m := gives_table hm fun e _ => .text n e.2
  have hlist : Gives n (.list .text) (.texts p.classes) p.classes := .list fun s _ => .text n s
  have hattached : Gives n (tableDecoder .json) (table (fun j => j) p.data) p.data :=
    gives_table hp.data fun e he => .json_of_regular n (hp.values e he)
  have hown : ∀ j ∈ p.value, Gives n .json j j ∧ ∀ depth, Decoder.json depth .null ≠ some j := by
    refine fun j hj => ⟨.json_of_regular n (hp.value j hj), fun _ hnull => hvalue ?_⟩
    rw [hj, ← Option.some.inj hnull]
  have hflag {b : Bool} {name : String} (hmem : (name, slot b (.bool true)) ∈ p.slots) :
      f.withDefault name false .bool = some b := by
    cases b with
    | false => exact hf.withDefault hmem nofun fun _ => rfl
    | true => exact reads_fixed hf hmem (.bool n true)
  have hid : f.withDefault "i" 0 oidDecoder = some p.id :=
    reads_fixed hf (by simp [slots]) (gives_oid n p.id)
  have hparent : f.withDefault "p" none (.nullable oidDecoder) = some p.parent :=
    reads_option hf (g := oidToJson) (by simp [slots]) fun oid _ => ⟨gives_oid n oid, nofun⟩
  have htag : f.withDefault "n" "" .text = some p.tag :=
    reads_fixed hf (by simp [slots]) (.text n p.tag)
  have hkind : f.withDefault "k" "" .text = some p.kind :=
    reads_fixed hf (by simp [slots]) (.text n p.kind)
  have hattrs : f.withDefault "a" .empty (tableDecoder .text) = some p.attrs :=
    reads_slot hf (by simp [slots]) (htable hp.attrs) eq_empty_of_isEmpty
  have hnone : (!p.classes.isEmpty) = false → p.classes = [] := by simp
  have hclasses : f.withDefault "C" [] (.list .text) = some p.classes :=
    reads_slot hf (by simp [slots]) hlist hnone
  have hstyle : f.withDefault "s" .empty (tableDecoder .text) = some p.style :=
    reads_slot hf (by simp [slots]) (htable hp.style) eq_empty_of_isEmpty
  have htext : f.withDefault "t" none (.nullable .text) = some p.text :=
    reads_option hf (g := .str) (by simp [slots]) fun s _ => ⟨.text n s, nofun⟩
  have hrebind : f.withDefault "#" false .bool = some p.rebind := hflag (by simp [slots])
  have hrestyle : f.withDefault "$" false .bool = some p.restyle := hflag (by simp [slots])
  have hvalue : f.withDefault "v" none (.nullable .json) = some p.value :=
    reads_option hf (g := fun j => j) (by simp [slots]) hown
  have htype : f.withDefault "type" none (.nullable .text) = some p.valueType :=
    reads_option hf (g := .str) (by simp [slots]) fun s _ => ⟨.text n s, nofun⟩
  have hdata : f.withDefault "d" .empty (tableDecoder .json) = some p.data :=
    reads_slot hf (by simp [slots]) hattached eq_empty_of_isEmpty
  have hhtml : (p.ns != .html) = false → p.ns = .html := by simp
  have hns : f.withDefault "x" .html namespaceDecoder = some p.ns :=
    reads_slot hf (by simp [slots]) (gives_namespace n p.ns) hhtml
  have hfocus : f.withDefault "f" false .bool = some p.focus := hflag (by simp [slots])
  have hlocalize : f.withDefault "l" false .bool = some p.localize := hflag (by simp [slots])
  simp only [hid, hparent, htag, hkind, hattrs, hclasses, hstyle, htext, hrebind, hrestyle, hvalue,
    htype, hdata, hns, hfocus, hlocalize, Option.bind_eq_bind, Option.bind_some]
  rfl

theorem ranged_table {α : Type} {f : α → Json} {m : OrderedMap String α}
    (h : ∀ e ∈ m.entries, (f e.2).Ranged) : (table f m).Ranged := by
  refine .object fun member hmember => ?_
  obtain ⟨e, he, rfl⟩ := List.mem_map.1 hmember
  exact h e he

/-- All integers of a payload are of 64 bits. -/
theorem ranged {p : NodePayload} (hp : p.Regular) : p.toJson.Ranged := by
  have hfixed {j : Json} (hj : j.Ranged) : ∀ k ∈ some j, k.Ranged := by
    rintro _ ⟨⟩
    exact hj
  have hslot (present : Bool) {j : Json} (hj : j.Ranged) : ∀ k ∈ slot present j, k.Ranged := by
    cases present with
    | false => exact nofun
    | true => exact hfixed hj
  have hoption {α : Type} {g : α → Json} {a? : Option α} (h : ∀ a ∈ a?, (g a).Ranged) :
      ∀ k ∈ a?.map g, k.Ranged := by
    cases a? with
    | none => exact nofun
    | some a => exact hfixed (h a rfl)
  have htable (m : OrderedMap String String) : (table .str m).Ranged :=
    ranged_table fun e _ => .str e.2
  have hclasses : (Json.texts p.classes).Ranged := by
    refine .array fun j hj => ?_
    obtain ⟨s, -, rfl⟩ := List.mem_map.1 hj
    exact .str s
  have hslots : ∀ s ∈ p.slots, ∀ k ∈ s.2, k.Ranged := by
    simp only [slots, List.forall_mem_cons]
    exact ⟨hfixed (Json.ranged_oid p.id), hoption fun oid _ => Json.ranged_oid oid,
      hfixed (.str p.tag), hfixed (.str p.kind), hslot _ (htable p.attrs), hslot _ hclasses,
      hslot _ (htable p.style), hoption fun s _ => .str s, hslot _ (.bool true),
      hslot _ (.bool true), hoption fun j hj => (hp.value j hj).ranged, hoption fun s _ => .str s,
      hslot _ (ranged_table fun e he => (hp.values e he).ranged), hslot _ (.str p.ns.name),
      hslot _ (.bool true), hslot _ (.bool true), nofun⟩
  rw [toJson_eq]
  exact .object fun m hm => hslots _ (Json.mem_present.1 hm) m.2 rfl

end NodePayload

/-! ## Messages -/

/-- A message as it is kept in memory, whose payloads have no control with the value `null`. -/
def Message.Regular : Message → Prop
  | update nodes => ∀ p ∈ nodes, p.Regular ∧ p.value ≠ some .null
  | error _ line => ∀ l ∈ line, l < UInt32.size
  | call _ args => ∀ j ∈ args, j.Regular
  | _ => True

/-- A message of the consumer as it is kept in memory. -/
def Inbound.Regular : Inbound → Prop
  | click _ _ args => ∀ j ∈ args, j.Regular
  | bind _ value => value.Regular
  | answer _ _ value => value.Regular
  | refresh => True

section

open Decoder (depthLimit)
open NodePayload (oidToJson gives_oid)

/-- Arguments are read as they were written. -/
theorem gives_args {args : List Json} (h : ∀ j ∈ args, j.Regular) :
    Gives depthLimit (.list .json) (.array args) args := by
  have hlist : Gives depthLimit (.list .json) (.array (args.map fun j => j)) args :=
    .list fun j hj => .json_of_regular depthLimit (h j hj)
  rwa [List.map_id'] at hlist

namespace Message

/-- A message of the renderer is read as it was written. -/
theorem gives {m : Message} (hm : m.Regular) : Gives depthLimit decoder m.toJson m := by
  have hoid (oid : UInt64) : (oidToJson oid).Ranged := Json.ranged_oid oid
  cases m with
  | update nodes =>
    have hlist : Gives depthLimit (.list NodePayload.decoder)
        (.array (nodes.map NodePayload.toJson)) nodes :=
      .list fun p hp => NodePayload.gives depthLimit (hm p hp).1 (hm p hp).2
    have hranged : (Json.array (nodes.map NodePayload.toJson)).Ranged := by
      refine .array fun j hj => ?_
      obtain ⟨p, hp, rfl⟩ := List.mem_map.1 hj
      exact NodePayload.ranged (hm p hp).1
    refine .tagged (by simp) (.object (by simpa using hranged)) ?_
    refine .record rfl (by decide) fun depth hread => ?_
    simp [hread hlist (by simp)]
  | delete ids =>
    have hlist : Gives depthLimit (.list NodePayload.oidDecoder) (.array (ids.map oidToJson)) ids :=
      .list fun oid _ => gives_oid depthLimit oid
    have hranged : (Json.array (ids.map oidToJson)).Ranged := by
      refine .array fun j hj => ?_
      obtain ⟨oid, -, rfl⟩ := List.mem_map.1 hj
      exact hoid oid
    refine .tagged (by simp) (.object (by simpa using hranged)) ?_
    refine .record rfl (by decide) fun depth hread => ?_
    simp [hread hlist (by simp)]
  | metrics oid =>
    refine .tagged (by simp [about]) (.object (by simpa [about] using hoid oid)) ?_
    refine .record rfl (by decide) fun depth hread => ?_
    simp [about, hread (gives_oid depthLimit oid) (by simp [about])]
  | value oid valueType =>
    have hmembers : about oid :: NodePayload.memberOption "t" .str valueType =
        Json.present [("oid", some (oidToJson oid)), ("t", valueType.map .str)] := by
      cases valueType <;> rfl
    rw [toJson, ofKind, hmembers]
    refine .tagged ?_ (.object ?_) (.ofSlots rfl (by decide) fun f hf => ?_)
    · cases valueType <;> simp
    · cases valueType with
      | none => simpa using hoid oid
      | some s => simpa using ⟨hoid oid, .str s⟩
    · have hid : f.required "oid" NodePayload.oidDecoder = some oid :=
        hf.required (by simp) (gives_oid depthLimit oid)
      have htype : f.withDefault "t" none (.nullable .text) = some valueType :=
        NodePayload.reads_option hf (g := .str) (by simp) fun s _ => ⟨.text depthLimit s, nofun⟩
      simp [hid, htype]
  | validity oid =>
    refine .tagged (by simp [about]) (.object (by simpa [about] using hoid oid)) ?_
    refine .record rfl (by decide) fun depth hread => ?_
    simp [about, hread (gives_oid depthLimit oid) (by simp [about])]
  | error message line =>
    have hmembers : ("message", .str message) :: NodePayload.memberOption "line" .ofNat line =
        Json.present [("message", some (.str message)), ("line", line.map .ofNat)] := by
      cases line <;> rfl
    rw [toJson, ofKind, hmembers]
    refine .tagged ?_ (.object ?_) (.ofSlots rfl (by decide) fun f hf => ?_)
    · cases line <;> simp
    · cases line with
      | none => simpa using .str message
      | some l => simpa using ⟨.str message, Json.ranged_word (hm l rfl)⟩
    · have hmessage : f.required "message" .text = some message :=
        hf.required (by simp) (.text depthLimit message)
      have hline : f.withDefault "line" none (.nullable (.word UInt32.size)) = some line :=
        NodePayload.reads_option hf (g := .ofNat) (by simp) fun l hl =>
          ⟨.word depthLimit (hm l hl), nofun⟩
      simp [hmessage, hline]
  | restart =>
    refine .tagged (by simp) (.object (by simp)) ?_
    exact fun _ _ _ _ => rfl
  | log message =>
    refine .tagged (by simp) (.object (by simpa using .str message)) ?_
    refine .record rfl (by decide) fun depth hread => ?_
    simp [hread (.text depthLimit message) (by simp)]
  | call method args =>
    have hranged : (Json.array args).Ranged := .array fun j hj => (hm j hj).ranged
    refine .tagged (by simp) (.object (by simpa using ⟨.str method, hranged⟩)) ?_
    have hslots : [("method", Json.str method), ("args", .array args)] =
        Json.present [("method", some (.str method)), ("args", some (.array args))] := rfl
    rw [hslots]
    refine .ofSlots rfl (by decide) fun f hf => ?_
    have hmethod : f.required "method" .text = some method :=
      hf.required (by simp) (.text depthLimit method)
    have hargs : f.withDefault "args" [] (.list .json) = some args :=
      NodePayload.reads_fixed hf (by simp) (gives_args hm)
    simp [hmethod, hargs]

end Message

namespace Inbound

/-- A message with a value is read as it was written. -/
theorem gives_withValue {make : UInt64 → Json → Inbound} {oid : UInt64} {value : Json}
    (hvalue : value.Regular) : Gives depthLimit (withValue make)
      (.object [Message.about oid, ("value", value)]) (make oid value) := by
  refine .record rfl (by decide) fun depth hread => ?_
  simp [Message.about, Decoder.Fields.required_of_ne,
    hread (gives_oid depthLimit oid) (by simp [Message.about]),
    hread (.json_of_regular depthLimit hvalue) (by simp)]

/-- A message of the consumer is read as it was written. -/
theorem gives {m : Inbound} (hm : m.Regular) : Gives depthLimit decoder m.toJson m := by
  have hoid (oid : UInt64) : (oidToJson oid).Ranged := Json.ranged_oid oid
  have hmembers {oid : UInt64} {value : Json} (hvalue : value.Regular) :
      (Json.object [Message.about oid, ("value", value)]).Ranged :=
    .object (by simpa [Message.about] using ⟨hoid oid, hvalue.ranged⟩)
  cases m with
  | click oid method args =>
    have hranged : (Json.array args).Ranged := .array fun j hj => (hm j hj).ranged
    refine .tagged (by simp [Message.about])
      (.object (by simpa [Message.about] using ⟨hoid oid, .str method, hranged⟩)) ?_
    let slots : List (String × Option Json) :=
      [("oid", some (oidToJson oid)), ("method", some (.str method)), ("args", some (.array args))]
    have hslots : [Message.about oid, ("method", .str method), ("args", .array args)] =
        Json.present slots := rfl
    rw [hslots]
    refine .ofSlots rfl (by decide) fun f hf => ?_
    have hid : f.required "oid" NodePayload.oidDecoder = some oid :=
      hf.required (by simp [slots]) (gives_oid depthLimit oid)
    have hmethod : f.required "method" .text = some method :=
      hf.required (by simp [slots]) (.text depthLimit method)
    have hargs : f.withDefault "args" [] (.list .json) = some args :=
      NodePayload.reads_fixed hf (by simp [slots]) (gives_args hm)
    simp [hid, hmethod, hargs]
  | bind oid value =>
    exact .tagged (by simp [Message.about]) (hmembers hm) (gives_withValue hm)
  | answer kind oid value =>
    cases kind with
    | _ => exact .tagged (by simp [Message.about]) (hmembers hm) (gives_withValue hm)
  | refresh =>
    refine .tagged (by simp) (.object (by simp)) ?_
    exact fun _ _ _ _ => rfl

end Inbound
end
end ReactiveView

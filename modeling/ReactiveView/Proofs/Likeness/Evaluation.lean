import ReactiveView.Proofs.Likeness.Operators
import ReactiveView.Proofs.Outcomes
import ReactiveView.Proofs.Selective.Readings

/-!
# Expressions and the order of entries

If nothing in an expression shows the order of entries (`Expr.Blind`), scopes that differ in the order of
entries give outcomes that differ in it only (`evalWith_alike`).
-/

namespace ReactiveView

/-! ## Expressions that do not show the order of entries -/

mutual

/-- Nothing in an expression shows the order of entries over a scope: what it turns into text, takes as
an index, or gives to a function that shows the order, holds no map with two entries. -/
def Expr.Blind (s : Scope) : Expr → Prop
  | .literal _ | .name _ | .this => True
  | .member object _ => object.Blind s
  | .index object key =>
    object.Blind s ∧ key.Blind s ∧ ∀ k, s.outcome? key = some (.ok k) → k.flat = true
  | .call callee args => callee.Blind s ∧ Expr.BlindList s args ∧
      ∀ name b vs, s.outcome? callee = some (.ok (.builtin name)) →
        Builtin.ofName? name = some b → s.outcomes? args = some (.ok vs) →
          b.showsOrder = false ∨ Value.flatItems vs = true
  | .list items => Expr.BlindList s items
  | .unary _ operand => operand.Blind s
  | .binary _ left right => left.Blind s ∧ right.Blind s
  | .logical op left right => left.Blind s ∧
      -- the right operand counts if the left one does not decide
      ∀ v, s.outcome? left = some (.ok v) → v.truthy = decide (op = .and) → right.Blind s
  | .cond condition yes no => condition.Blind s ∧ ∀ v, s.outcome? condition = some (.ok v) →
      (v.truthy = true → yes.Blind s) ∧ (v.truthy = false → no.Blind s)
  | .format parts => Expr.BlindParts s parts

/-- Nothing in expressions shows the order of entries. -/
def Expr.BlindList (s : Scope) : List Expr → Prop
  | [] => True
  | e :: es => e.Blind s ∧ Expr.BlindList s es

/-- Nothing in a format string shows the order of entries. -/
def Expr.BlindParts (s : Scope) : List FormatPart → Prop
  | [] => True
  | .text _ :: parts => Expr.BlindParts s parts
  | .expr e :: parts => e.Blind s ∧ (∀ v, s.outcome? e = some (.ok v) → v.flat = true) ∧
      Expr.BlindParts s parts

end

/-- Outcomes that are alike: there is none, or the same error, or results that are related. -/
inductive Outcome.Alike {α : Type} (R : α → α → Prop) :
    Option (Except EvalError α) → Option (Except EvalError α) → Prop where
  /-- There is no outcome. -/
  | stuck : Alike R none none
  /-- Both fail with one error. -/
  | failed (err : EvalError) : Alike R (some (.error err)) (some (.error err))
  /-- Both succeed. -/
  | done {a b : α} : R a b → Alike R (some (.ok a)) (some (.ok b))

namespace Outcome.Alike

variable {α β : Type} {R : α → α → Prop} {S : β → β → Prop}

/-- One evaluation after another. -/
theorem bind {x x' : Eval Option α} {f f' : α → Eval Option β} (hx : Alike R x.run x'.run)
    (hf : ∀ a b, R a b → x.run = some (.ok a) → Alike S (f a).run (f' b).run) :
    Alike S (x >>= f).run (x' >>= f').run := by
  change Alike S (x.run.bind (ExceptT.bindCont f)) (x'.run.bind (ExceptT.bindCont f'))
  generalize hr : x.run = r at hx hf
  generalize x'.run = r' at hx
  cases hx with
  | stuck => exact .stuck
  | failed err => exact .failed err
  | done hab => exact hf _ _ hab rfl

end Outcome.Alike

namespace Scope

/-- Scopes that differ in the order of entries at most. -/
def Alike (s s' : Scope) : Prop := ∀ x, (s.get? x).map Value.sorted = (s'.get? x).map Value.sorted

end Scope

/-- Values that differ in the order of entries at most. -/
def Value.Alike (v w : Value) : Prop := v.sorted = w.sorted

/-- Items that differ in the order of entries at most. -/
def Value.AlikeItems (vs ws : List Value) : Prop := Value.sortedItems vs = Value.sortedItems ws

section

open Interpreter Value Outcome

variable {s s' : Scope}

/-- A function of values that does not see the order of entries gives outcomes that are alike. -/
theorem Outcome.alike_lift {r r' : Except EvalCause Value} (h : r.map sorted = r'.map sorted) :
    Outcome.Alike Value.Alike (lift r : Eval Option Value).run (lift r' : Eval Option Value).run := by
  cases r with
  | error cause =>
    cases r' with
    | error cause' =>
      obtain rfl : cause = cause' := Except.error.inj h
      exact .failed _
    | ok w => cases h
  | ok v =>
    cases r' with
    | error cause' => cases h
    | ok w => exact .done (Except.ok.inj h)

/-- Values that are alike are of one kind. -/
theorem Value.Alike.typeName {v w : Value} (h : v.Alike w) : v.typeName = w.typeName := by
  rw [← typeName_sorted, h, typeName_sorted]

/-- Values that are alike are maps both or neither. -/
theorem Value.Alike.map_cases {v w : Value} (h : v.Alike w) :
    (∃ entries entries', v = map ⟨entries⟩ ∧ w = map ⟨entries'⟩ ∧
      sortedEntries entries = sortedEntries entries') ∨
    (∀ m, v ≠ map m) ∧ ∀ m, w ≠ map m := by
  have hkind := h.typeName
  cases v with
  | map m =>
    cases w with
    | map m' => exact .inl ⟨m.entries, m'.entries, rfl, rfl, OrderedMap.mk.inj (map.inj h)⟩
    | _ => simp [Value.typeName] at hkind
  | _ =>
    cases w with
    | map m => simp [Value.typeName] at hkind
    | _ => exact .inr ⟨fun _ => Value.noConfusion, fun _ => Value.noConfusion⟩

/-- What is no map has no members. -/
theorem memberOf_other {v : Value} (hv : ∀ m, v ≠ map m) (name : String) :
    (memberOf s.still v name).run = some (.error ⟨.noAttribute v.typeName name, none⟩) := by
  cases v with
  | map m => exact absurd rfl (hv m)
  | _ => rfl

/-- A member of values that are alike. -/
theorem memberOf_alike {v w : Value} (h : v.Alike w) (name : String) :
    Outcome.Alike Value.Alike (memberOf s.still v name).run (memberOf s'.still w name).run := by
  obtain ⟨entries, entries', rfl, rfl, hentries⟩ | ⟨hv, hw⟩ := h.map_cases
  · have hgetD (found : Option Value) : (found.getD .null).sorted = (found.map sorted).getD .null := by
      cases found <;> rfl
    refine .done ?_
    unfold Value.Alike
    rw [hgetD, hgetD, OrderedMap.get?, OrderedMap.get?, ← find?_sortedEntries, hentries,
      find?_sortedEntries]
  · rw [memberOf_other hv, memberOf_other hw, h.typeName]
    exact .failed _

/-- Calls of a built-in function with arguments that are alike. -/
theorem call_alike {b : Builtin} {vs ws : List Value} (hargs : AlikeItems vs ws)
    (hblind : b.showsOrder = false ∨ flatItems vs = true) : b.call vs = b.call ws := by
  have hflat : flatItems vs = flatItems ws := by
    rw [← flatItems_sortedItems, hargs, flatItems_sortedItems]
  have hsorted : vs.map sorted = ws.map sorted := by
    rw [← sortedItems_eq_map, hargs, sortedItems_eq_map]
  rw [← Builtin.call_sorted hblind, hsorted, Builtin.call_sorted (hflat ▸ hblind)]

/-- What is no function cannot be called. -/
theorem stillCall_other {v : Value} (hv : v.isCallable = false) (vs : List Value) :
    (s.stillCall v vs).run = some (.error ⟨.notCallable v.typeName, none⟩) := by
  cases v with
  | func f => cases hv
  | builtin name => cases hv
  | _ => rfl

/-- Calls of values that are alike. -/
theorem stillCall_alike {f g : Value} (hf : f.Alike g) {vs ws : List Value}
    (hargs : AlikeItems vs ws) (hblind : ∀ name b, f = .builtin name →
      Builtin.ofName? name = some b → b.showsOrder = false ∨ flatItems vs = true) :
    Outcome.Alike Value.Alike (s.stillCall f vs).run (s'.stillCall g ws).run := by
  have hkind := hf.typeName
  cases f with
  | func f =>
    obtain rfl : Value.func f = g := by
      cases g with
      | func g => exact hf
      | _ => cases hf
    exact .stuck
  | builtin name =>
    obtain rfl : Value.builtin name = g := by
      cases g with
      | builtin name' => exact hf
      | _ => cases hf
    change Outcome.Alike _ (ExceptT.run (if isBuiltin name then _ else _))
      (ExceptT.run (if isBuiltin name then _ else _))
    split
    · refine alike_lift ?_
      unfold callBuiltin
      split
      · rename_i b hb
        rw [call_alike hargs (hblind name b rfl hb)]
      · rfl
    · exact .failed _
  | _ =>
    have hg : g.isCallable = false := by rw [← isCallable_sorted, ← hf, isCallable_sorted]; rfl
    rw [stillCall_other rfl, stillCall_other hg, hkind]
    exact .failed _

mutual

/-- An expression that does not show the order of entries has outcomes that are alike over scopes that
are alike. -/
theorem evalWith_alike (h : s.Alike s') : ∀ e : Expr, e.Blind s →
    Outcome.Alike Value.Alike (s.outcome? e) (s'.outcome? e)
  | .literal _, _ => .done rfl
  | .name x, _ => by
    rw [Scope.outcome?_name, Scope.outcome?_name]
    have hx := h x
    generalize s.get? x = found at hx
    generalize s'.get? x = found' at hx
    cases found with
    | some v =>
      cases found' with
      | some w => exact .done (Option.some.inj hx)
      | none => cases hx
    | none =>
      cases found' with
      | some w => cases hx
      | none =>
        dsimp only
        split
        · exact .done rfl
        · exact .failed _
  | .this, _ => .done rfl
  | .member object name, hb =>
    .bind (evalWith_alike h object hb) fun _ _ hvw _ => memberOf_alike hvw name
  | .index object key, hb => by
    obtain ⟨hobject, hkey, hflat⟩ := hb
    refine .bind (evalWith_alike h object hobject) fun v w hvw _ => ?_
    refine .bind (evalWith_alike h key hkey) fun k k' hk hrun => ?_
    -- an index without an order of entries is the same on both sides
    obtain rfl : k = k' := eq_of_flat (hflat k hrun) hk
    refine alike_lift ?_
    rw [← subscript_sorted v, hvw, subscript_sorted w]
  | .call callee args, hb => by
    obtain ⟨hcallee, hargs, hblind⟩ := hb
    refine .bind (evalWith_alike h callee hcallee) fun f g hf hrun => ?_
    refine .bind (evalList_alike h args hargs) fun vs ws hvs hrun' => ?_
    exact stillCall_alike hf hvs fun name b hname hb => hblind name b vs (hname ▸ hrun) hb hrun'
  | .list items, hb =>
    .bind (evalList_alike h items hb) fun _ _ hvs _ => .done (congrArg list hvs)
  | .unary op operand, hb => by
    refine .bind (evalWith_alike h operand hb) fun v w hvw _ => alike_lift ?_
    rw [← applyUnary_sorted op v, hvw, applyUnary_sorted op w]
  | .binary op left right, hb => by
    refine .bind (evalWith_alike h left hb.1) fun v w hvw _ => ?_
    refine .bind (evalWith_alike h right hb.2) fun v' w' hvw' _ => alike_lift ?_
    rw [← applyBinary_sorted op v v', hvw, hvw', applyBinary_sorted op w w']
  | .logical op left right, hb => by
    refine .bind (evalWith_alike h left hb.1) fun v w hvw hrun => ?_
    have htruthy : v.truthy = w.truthy := by rw [← truthy_sorted, hvw, truthy_sorted]
    have hright := hb.2 v hrun
    rw [← htruthy]
    -- the left operands decide both or neither
    generalize v.truthy = b at hright ⊢
    cases op <;> cases b
    · exact .done hvw
    · exact evalWith_alike h right (hright rfl)
    · exact evalWith_alike h right (hright rfl)
    · exact .done hvw
  | .cond condition yes no, hb => by
    refine .bind (evalWith_alike h condition hb.1) fun v w hvw hrun => ?_
    have htruthy : v.truthy = w.truthy := by rw [← truthy_sorted, hvw, truthy_sorted]
    obtain ⟨hyes, hno⟩ := hb.2 v hrun
    rw [← htruthy]
    -- both conditions choose the same branch
    generalize v.truthy = b at hyes hno ⊢
    cases b
    · exact evalWith_alike h no (hno rfl)
    · exact evalWith_alike h yes (hyes rfl)
  | .format parts, hb =>
    .bind (evalParts_alike h "" parts hb) fun _ _ heq _ => .done (congrArg (sorted ∘ str) heq)

/-- So have expressions in turn. -/
theorem evalList_alike (h : s.Alike s') : ∀ es : List Expr, Expr.BlindList s es →
    Outcome.Alike AlikeItems (s.outcomes? es) (s'.outcomes? es)
  | [], _ => .done rfl
  | e :: es, hb => by
    refine .bind (evalWith_alike h e hb.1) fun v w hvw _ => ?_
    refine .bind (evalList_alike h es hb.2) fun vs ws hvs _ => .done ?_
    unfold AlikeItems
    rw [sortedItems, sortedItems, hvw, hvs]

/-- A format string has the same text. -/
theorem evalParts_alike (h : s.Alike s') : ∀ (out : String) (parts : List FormatPart),
    Expr.BlindParts s parts → Outcome.Alike Eq
      (evalParts s.still s.stillCall none out parts).run
      (evalParts s'.still s'.stillCall none out parts).run
  | _, [], _ => .done rfl
  | out, .text t :: parts, hb => evalParts_alike h (out ++ t) parts hb
  | out, .expr e :: parts, hb => by
    obtain ⟨he, hflat, hparts⟩ := hb
    refine .bind (evalWith_alike h e he) fun v w hvw hrun => ?_
    obtain rfl : v = w := eq_of_flat (hflat v hrun) hvw
    exact evalParts_alike h (out ++ v.display) parts hparts

end

namespace Scope

/-! ## Call-free expressions -/

mutual

/-- An expression without calls has an outcome. -/
theorem isSome_outcome? (s : Scope) : ∀ e : Expr, e.callFree = true → (s.outcome? e).isSome = true
  | .literal _, _ => rfl
  | .name x, _ => by
    rw [outcome?_name]
    split
    · rfl
    · split <;> rfl
  | .member object name, h =>
    isSome_bind (isSome_outcome? s object h) fun v => isSome_memberOf s v name
  | .index object key, h => by
    obtain ⟨hobject, hkey⟩ := Bool.and_eq_true_iff.1 h
    exact isSome_bind (isSome_outcome? s object hobject) fun _ =>
      isSome_bind (isSome_outcome? s key hkey) fun _ => isSome_lift _
  | .list items, h => isSome_bind (isSome_outcomes? s items h) fun _ => rfl
  | .unary _ operand, h => isSome_bind (isSome_outcome? s operand h) fun _ => isSome_lift _
  | .binary _ left right, h => by
    obtain ⟨hleft, hright⟩ := Bool.and_eq_true_iff.1 h
    exact isSome_bind (isSome_outcome? s left hleft) fun _ =>
      isSome_bind (isSome_outcome? s right hright) fun _ => isSome_lift _
  | .logical op left right, h => by
    obtain ⟨hleft, hright⟩ := Bool.and_eq_true_iff.1 h
    refine isSome_bind (isSome_outcome? s left hleft) fun v => ?_
    cases op <;> cases v.truthy
    · rfl
    · exact isSome_outcome? s right hright
    · exact isSome_outcome? s right hright
    · rfl
  | .cond condition yes no, h => by
    obtain ⟨h, hno⟩ := Bool.and_eq_true_iff.1 h
    obtain ⟨hcondition, hyes⟩ := Bool.and_eq_true_iff.1 h
    refine isSome_bind (isSome_outcome? s condition hcondition) fun v => ?_
    cases v.truthy
    · exact isSome_outcome? s no hno
    · exact isSome_outcome? s yes hyes
  | .format parts, h => isSome_bind (isSome_evalParts s "" parts h) fun _ => rfl
  | .this, h => by cases h
  | .call _ _, h => by cases h

/-- So have expressions without calls in turn. -/
theorem isSome_outcomes? (s : Scope) : ∀ es : List Expr, Expr.callFreeList es = true →
    (s.outcomes? es).isSome = true
  | [], _ => rfl
  | e :: es, h => by
    obtain ⟨he, hes⟩ := Bool.and_eq_true_iff.1 h
    exact isSome_bind (isSome_outcome? s e he) fun _ =>
      isSome_bind (isSome_outcomes? s es hes) fun _ => rfl

/-- So has a format string without calls. -/
theorem isSome_evalParts (s : Scope) : ∀ (out : String) (parts : List FormatPart),
    Expr.callFreeParts parts = true →
      (evalParts s.still s.stillCall none out parts).run.isSome = true
  | _, [], _ => rfl
  | out, .text t :: parts, h => isSome_evalParts s (out ++ t) parts h
  | out, .expr e :: parts, h => by
    obtain ⟨he, hparts⟩ := Bool.and_eq_true_iff.1 h
    exact isSome_bind (isSome_outcome? s e he) fun v =>
      isSome_evalParts s (out ++ v.display) parts hparts

end

end Scope

end
end ReactiveView

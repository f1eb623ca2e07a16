import ReactiveView.Proofs.Likeness.Evaluation
import ReactiveView.Proofs.Operation

/-!
# Writes that are ignored

A variable, a name of a frame, the items of a loop and the value of a set are left as they are if the new
value equals the old one. What that can hide is the order in which maps list their entries: equal
values are alike in everything else (`Value.Likens`), and expressions that do not show that order have
the same outcomes whether the new value was written or not (`Scope.Agree`).
-/

namespace ReactiveView

/-! ## Values -/

/-- What values have in common that operators take as equal. -/
structure Value.Likens (a b : Value) : Prop where
  /-- They differ in the order of entries at most. -/
  alike : a.Alike b
  /-- They have one truth value. -/
  truthy : a.truthy = b.truthy
  /-- They are of one kind. -/
  typeName : a.typeName = b.typeName
  /-- They have the same key, if they have one. -/
  key? : a.key? = b.key?
  /-- Both have items or neither has. The items of the one are alike to those of the other, in some
  order. -/
  items : (a.items? = none ∧ b.items? = none) ∨ ∃ vs ws, a.items? = some vs ∧ b.items? = some ws ∧
    (vs.map sorted).Perm (ws.map sorted)
  /-- The order of the items is the same, except for the keys of a map. -/
  inOrder : (∀ m, a ≠ map m) → ∀ vs ws, a.items? = some vs → b.items? = some ws →
    Value.AlikeItems vs ws
  /-- Where no map has two entries, or entries are listed in one order, they are identical. -/
  identical : a.flat = true ∨ aligned a b = true → a = b

namespace Value

variable {a b : Value}

/-- Plain values that are equal have all this in common. -/
theorem likens_of_same (ha : a.plain = true) (hb : b.plain = true) (h : a.same b = true) :
    a.Likens b := by
  have halike : a.Alike b := sorted_eq_of_same ha hb h
  have hitems : (a.items? = none ∧ b.items? = none) ∨ ∃ vs ws, a.items? = some vs ∧
      b.items? = some ws ∧ (vs.map sorted).Perm (ws.map sorted) := by
    have hsorted : a.sorted.items? = b.sorted.items? := congrArg items? halike
    obtain ⟨hnone, hnone'⟩ | ⟨vs, us, hvs, hus, hperm⟩ := items?_sorted a
    · obtain ⟨hb, -⟩ | ⟨ws, us, -, hus, -⟩ := items?_sorted b
      · exact .inl ⟨hnone, hb⟩
      · rw [hnone', hus] at hsorted
        cases hsorted
    · obtain ⟨-, hb'⟩ | ⟨ws, us', hws, hus', hperm'⟩ := items?_sorted b
      · rw [hus, hb'] at hsorted
        cases hsorted
      · rw [hus, hus', Option.some.injEq] at hsorted
        exact .inr ⟨vs, ws, hvs, hws, hperm.symm.trans (hsorted ▸ hperm')⟩
  exact {
    alike := halike
    truthy := by rw [← truthy_sorted, halike, truthy_sorted]
    typeName := halike.typeName
    key? := by rw [← key?_sorted, halike, key?_sorted]
    items := hitems
    inOrder := by
      intro hmap vs ws hvs hws
      cases a with
      | list items =>
        cases b with
        | list items' =>
          obtain rfl := Option.some.inj hvs
          obtain rfl := Option.some.inj hws
          exact list.inj halike
        | _ => cases h
      | map m => exact absurd rfl (hmap m)
      | _ =>
        -- neither a list nor a map, so that the values are identical
        obtain rfl := eq_of_flat rfl halike
        rw [hvs, Option.some.injEq] at hws
        rw [hws]
        rfl
    identical := fun hor => hor.elim (fun hflat => eq_of_flat hflat halike)
      fun haligned => eq_of_aligned ha haligned halike
  }

end Value

/-! ## Scopes -/

/-- Outcomes of which the results differ in the order of entries at most. -/
def Outcome.Agree (r r' : Except EvalError Value) : Prop :=
  (∃ err, r = .error err ∧ r' = .error err) ∨ ∃ v w, r = .ok v ∧ r' = .ok w ∧ v.Alike w ∧
    v.same w = v.same v ∧ (v.flat = true → v = w)

/-- Over two scopes every expression that calls no function of a code block and does not show the order
of entries has outcomes that agree. -/
def Scope.Agree (s s' : Scope) : Prop := ∀ e : Expr, e.Blind s →
  e.callFree = true ∨ (s.outcome? e).isSome = true → ∃ r r', Outcome.Agree r r' ∧
    (∀ run : Scope.Run, run.scope = s →
      ∃ run', (Interpreter.eval Scope.env e).run.run run = (r, run') ∧ run'.scope = s) ∧
    ∀ run : Scope.Run, run.scope = s' →
      ∃ run', (Interpreter.eval Scope.env e).run.run run = (r', run') ∧ run'.scope = s'

namespace Scope

variable {s s' : Scope} {a b : Value}

/-- Scopes that differ in the order of entries at most agree. -/
theorem Alike.agree (h : s.Alike s') : s.Agree s' := by
  intro e hblind hcalls
  have hsome : (s.outcome? e).isSome = true := hcalls.elim (isSome_outcome? s e) id
  have halike := evalWith_alike h e hblind
  generalize hr : s.outcome? e = r at hsome halike
  generalize hr' : s'.outcome? e = r' at halike
  cases halike with
  | stuck => cases hsome
  | failed err =>
    exact ⟨_, _, .inl ⟨err, rfl, rfl⟩, fun run hrun => eval_of_outcome? hr hrun,
      fun run hrun => eval_of_outcome? hr' hrun⟩
  | @done v w hvw =>
    refine ⟨_, _, .inr ⟨v, w, rfl, rfl, hvw, ?_, fun hflat => Value.eq_of_flat hflat hvw⟩,
      fun run hrun => eval_of_outcome? hr hrun, fun run hrun => eval_of_outcome? hr' hrun⟩
    rw [← Value.same_sorted, ← hvw, Value.same_sorted]

/-- Binding values that are alike gives scopes that are. -/
theorem alike_insert (s : Scope) (x : String) (h : a.Alike b) :
    Scope.Alike (s.insert x a) (s.insert x b) := by
  intro y
  rw [OrderedMap.get?_insert, OrderedMap.get?_insert]
  split
  · exact congrArg some h
  · rfl

/-- A scope that has a value is like the one with a value that is alike. -/
theorem alike_insert_of_get? {x : String} (hx : s.get? x = some a) (h : a.Alike b) :
    Scope.Alike s (s.insert x b) := by
  intro y
  rw [OrderedMap.get?_insert]
  split
  · rename_i hy
    rw [hy, hx]
    exact congrArg some h
  · rfl

/-- A value that equals the present one is not written. -/
theorem write?_of_same {x : String} (hx : s.get? x = some a) (h : a.same b = true) :
    s.write? x b = none := by
  rw [write?, hx]
  exact if_pos h

end Scope

/-- A loop without identities that is given equal items is left as it is. -/
theorem Render.updatePlain_of_same {re : Reentry} {e : Engine} {id : NodeId} {n : RenderNode}
    {data : LoopData} {vs ws : List Value} (hn : e.node? id = some n) (hkind : n.kind = .loop data)
    (hstate : data.state = .plain vs) (h : Value.sameItems vs ws = true) :
    (updatePlain re id ws false).Gives e (.ok ()) e := by
  unfold updatePlain
  rw [Act.gives_read_bind, hn]
  dsimp only
  rw [hkind]
  dsimp only
  rw [hstate]
  dsimp only
  rw [if_pos h]
  exact Act.gives_pure.2 ⟨rfl, rfl⟩

/-! ## What equality hides -/

/-- Plain values that are equal differ in the order of entries at most, and expressions have outcomes
that agree in scopes that bind the one or the other. So where a write, a binding or new items are
ignored because they equal what is there, nothing is hidden but the order of entries. -/
theorem Value.same_hides_order {a b : Value} (ha : a.plain = true) (hb : b.plain = true)
    (h : a.same b = true) : a.Likens b ∧
    (∀ (s : Scope) (x : String), Scope.Agree (s.insert x a) (s.insert x b)) ∧
    (∀ (s : Scope) (x : String), s.get? x = some a →
      s.write? x b = none ∧ s.Agree (s.insert x b)) ∧
    (∀ (e : Engine) owner data x, e.context? owner = some data → data.scope.get? x = some a →
      e.writeVar owner x b = e) ∧
    (∀ (frames : FrameStore) id frame x, frames.get? id = some frame →
      frame.bindings.get? x = some a →
        frames.rebind id x b = (false, frames) ∧ frame.bindings.Agree (frame.bindings.insert x b)) ∧
    ∀ re (e : Engine) id n data vs ws, e.node? id = some n → n.kind = .loop data →
      data.state = .plain vs → a = list vs → b = list ws →
        (Render.updatePlain re id ws false).Gives e (.ok ()) e := by
  have halike : a.Alike b := sorted_eq_of_same ha hb h
  refine ⟨likens_of_same ha hb h, fun s x => (Scope.alike_insert s x halike).agree,
    fun s x hx => ⟨Scope.write?_of_same hx h, (Scope.alike_insert_of_get? hx halike).agree⟩,
    fun e owner data x hdata hx => ?_, fun frames id frame x hframe hx => ⟨?_, ?_⟩, ?_⟩
  · unfold Engine.writeVar
    rw [hdata]
    dsimp only
    rw [Scope.write?_of_same hx h]
  · unfold FrameStore.rebind
    rw [hframe]
    dsimp only
    rw [Scope.write?_of_same hx h]
  · exact (Scope.alike_insert_of_get? hx halike).agree
  · rintro re e id n data vs ws hn hkind hstate rfl rfl
    exact Render.updatePlain_of_same hn hkind hstate h

/-- Lists that hold equal maps, and the expression `xs[0].a + len(xs)` over them. -/
theorem Value.same_hides_order_lists :
    let a : Value := .list [.map (.ofList [("a", .int 1), ("b", .int 2)]), .null]
    let b : Value := .list [.map (.ofList [("b", .int 2), ("a", .int 1)]), .null]
    let e : Expr := .binary .add (.member (.index (.name "xs") (.literal (.int 0))) "a")
      (.call (.name "len") [.name "xs"])
    let s : Scope := .ofList [("xs", a)]
    a.plain = true ∧ b.plain = true ∧ a.same b = true ∧ a.display ≠ b.display ∧ a.Likens b ∧
      s.write? "xs" b = none ∧ ∃ r r', Outcome.Agree r r' ∧
        (∃ run, (Interpreter.eval Scope.env e).run.run ⟨s, 0, {}, []⟩ = (r, run)) ∧
        ∃ run, (Interpreter.eval Scope.env e).run.run ⟨s.insert "xs" b, 0, {}, []⟩ = (r', run) := by
  intro a b e s
  have ha : a.plain = true := by decide +kernel
  have hb : b.plain = true := by decide +kernel
  have hsame : a.same b = true := by decide +kernel
  obtain ⟨hlikens, -, hscope, -⟩ := same_hides_order ha hb hsame
  obtain ⟨hwrite, hagree⟩ := hscope s "xs" rfl
  have hblind : e.Blind s := by
    refine ⟨⟨trivial, trivial, fun k hk => ?_⟩, trivial, ⟨trivial, trivial⟩,
      fun name f vs hname hf _ => .inl ?_⟩
    · cases hk
      rfl
    · cases hname
      cases hf
      rfl
  obtain ⟨r, r', hr, hrun, hrun'⟩ := hagree e hblind (.inr rfl)
  obtain ⟨run, hrun, -⟩ := hrun ⟨s, 0, {}, []⟩ rfl
  obtain ⟨run', hrun', -⟩ := hrun' ⟨s.insert "xs" b, 0, {}, []⟩ rfl
  exact ⟨ha, hb, hsame, by decide +kernel, hlikens, hwrite, r, r', hr, ⟨run, hrun⟩, run', hrun'⟩

/-- Equal maps have different texts, items and keys if they list their entries in different orders.
A text node keeps the text of the old one when the new one is written. -/
theorem Value.same_hides_text :
    let a : Value := .map (.ofList [("a", .int 1), ("b", .int 2)])
    let b : Value := .map (.ofList [("b", .int 2), ("a", .int 1)])
    let e : Expr := .format [.expr (.name "m")]
    let host : Host :=
      { library :=
        { registry := { sources := .ofList [("Main", "\x7b\x7b!m\x7d\x7d")] } } }
    a.plain = true ∧ b.plain = true ∧ a.same b = true ∧ a.display ≠ b.display ∧
      a.items?.map (·.map Value.display) ≠ b.items?.map (·.map Value.display) ∧
      a.itemKey ≠ b.itemKey ∧
      (∃ r r', Scope.outcome? (.ofList [("m", a)]) e = some (.ok r) ∧
        Scope.outcome? (.ofList [("m", b)]) e = some (.ok r') ∧ r.display ≠ r'.display) ∧
      ∃ rs engine n data, host.start.Runs [.mount "Main" (.ofList [("m", a)]), .setVar ⟨0, 0⟩ "m" b]
        rs engine ∧ (∀ r ∈ rs, ∃ outcome, r = .ok outcome) ∧ engine.node? ⟨1, 0⟩ = some n ∧
        n.kind = .text data ∧ data.text ≠ b.display := by
  intro a b e host
  refine ⟨by decide +kernel, by decide +kernel, by decide +kernel, by decide +kernel,
    by decide +kernel, by decide +kernel, ⟨_, _, rfl, rfl, by decide +kernel⟩, ?_⟩
  obtain ⟨rs, hruns, hok⟩ := Engine.runs_after_ok 9
    [.mount "Main" (.ofList [("m", a)]), .setVar ⟨0, 0⟩ "m" b] host.start (by decide +kernel)
  have hnode : ((host.start.after 9 [.mount "Main" (.ofList [("m", a)]),
      .setVar ⟨0, 0⟩ "m" b]).node? ⟨1, 0⟩).any (fun n => n.kind.name = "text" &&
        n.kind.text? != some b.display) = true := by decide +kernel
  obtain ⟨n, hn, htext⟩ := (Option.any_eq_true _ _).1 hnode
  rw [Bool.and_eq_true, decide_eq_true_eq, bne_iff_ne] at htext
  cases hkind : n.kind with
  | text data =>
    rw [hkind] at htext
    exact ⟨rs, _, n, data, hruns, hok, hn, hkind, fun h => htext.2 (congrArg some h)⟩
  | _ =>
    rw [hkind] at htext
    simp [RenderKind.name] at htext

end ReactiveView

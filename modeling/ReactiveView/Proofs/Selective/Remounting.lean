import ReactiveView.Proofs.Accounting
import ReactiveView.Proofs.Selective.Checking
import ReactiveView.Proofs.Selective.Outlines

/-!
# Writing variables and mounting anew

A host mounts a selective component and writes variables of its root. After every write the outline of
the root is that of a new engine in which the component is mounted with the present variables
(`Runs.outline_remount`). So it does not matter that only the readers of what was written are updated,
and neither does it matter what was shown before.

The condition is on what the template can make of the variables at these times: as far as operators
take two such values as equal, they are equal. Otherwise a loop or a set could keep what was made for
another value.
-/

namespace ReactiveView

/-! ## Variables over time -/

/-- The variables after each of some writes. -/
def Scope.history (scope : Scope) (writes : List (String × Value)) : List Scope :=
  writes.scanl (fun scope w => scope.write w.1 w.2) scope

/-- The variables after some writes. -/
def Scope.writeAll (scope : Scope) (writes : List (String × Value)) : Scope :=
  writes.foldl (fun scope w => scope.write w.1 w.2) scope

namespace Scope

variable {scope : Scope} {writes : List (String × Value)}

/-- At first the variables are as they were. -/
theorem mem_history_self (scope : Scope) (writes : List (String × Value)) :
    scope ∈ scope.history writes := by
  unfold history
  cases writes with
  | nil => exact List.mem_singleton_self scope
  | cons w writes =>
    rw [List.scanl_cons]
    exact List.mem_cons_self

/-- After a write come the others. -/
theorem history_cons (scope : Scope) (w : String × Value) (writes : List (String × Value)) :
    scope.history (w :: writes) = scope :: (scope.write w.1 w.2).history writes := List.scanl_cons

/-- In the end all has been written. -/
theorem writeAll_mem_history (scope : Scope) (writes : List (String × Value)) :
    scope.writeAll writes ∈ scope.history writes := by
  induction writes generalizing scope with
  | nil => exact mem_history_self scope []
  | cons w writes ih =>
    rw [history_cons]
    exact List.mem_cons_of_mem scope (ih (scope.write w.1 w.2))

/-- Writes of plain values keep variables plain. -/
theorem Plain.history (h : scope.Plain)
    (hwrites : ∀ w ∈ writes, w.2.isPlain = true) :
    ∀ s ∈ scope.history writes, s.Plain := by
  induction writes generalizing scope with
  | nil =>
    intro s hs
    obtain rfl := List.mem_singleton.1 hs
    exact h
  | cons w writes ih =>
    intro s hs
    rw [history_cons] at hs
    rcases List.mem_cons.1 hs with rfl | hs
    · exact h
    · exact ih (h.write w.1 (hwrites w List.mem_cons_self))
        (fun w' hw' => hwrites w' (List.mem_cons_of_mem w hw')) s hs

end Scope

/-- What can be seen at the top of a component in the course of some writes. -/
def Host.Sees (host : Host) (component : String) (scope : Scope) (writes : List (String × Value))
    (o : Outlook) : Prop := ∃ s ∈ scope.history writes, o = host.outlook component s

namespace Engine

variable {e e' : Engine} {root : NodeId} {Start : Outlook → Prop} {scope : Scope} {routine : Routine}
  {host : Host} {name : String} {writes : List (String × Value)} {ops : List Operation}
  {rs rs' : List (Except EngineError Outcome)}

/-- While variables of the root are written, the component is shown with the variables of the time. -/
theorem Shows.runs (hb : routine.body.Suits Start) (hlimit : 1 ≤ host.options.maxUpdateDepth)
    (h : e.Shows host routine Start scope root) (hbooked : e.Booked)
    (hplain : ∀ s ∈ scope.history writes, s.Plain)
    (hstart : ∀ s ∈ scope.history writes, Start (host.outlook routine.name s))
    (hrun : e.Runs (writes.map fun w => .setVar root w.1 w.2) rs e') (hroom : e'.nodes.Roomy) :
    rs = writes.map (fun _ => .ok .done) ∧
      e'.Shows host routine Start (scope.writeAll writes) root := by
  induction writes generalizing e scope rs with
  | nil =>
    cases hrun
    exact ⟨rfl, h⟩
  | cons w writes ih =>
    rw [Scope.history_cons] at hplain hstart
    have hafter := List.mem_cons_of_mem scope (Scope.mem_history_self (scope.write w.1 w.2) writes)
    cases hrun with
    | @cons _ e₁ _ _ _ depth r rs first rest =>
      -- one write is followed up, and what that leaves is shown before the next one
      have hset : ((Operation.setVar root w.1 w.2).act depth).Yields e fun outcome e' =>
          outcome = .done ∧ e'.Shows host routine Start (scope.write w.1 w.2) root :=
        Act.yields_map ((setVar_shows hb depth h hbooked hlimit (hplain _ hafter)
          (hstart _ hafter)).imp fun _ _ hshows => ⟨rfl, hshows⟩)
      obtain ⟨_, rfl, rfl, hshows⟩ := hset first (rest.roomy hroom)
      have hbooked' := (Runs.cons first (.nil e₁)).booked hbooked
      obtain ⟨rfl, hshows'⟩ := ih hshows hbooked'
        (fun s hs => hplain s (List.mem_cons_of_mem scope hs))
        (fun s hs => hstart s (List.mem_cons_of_mem scope hs)) rest
      exact ⟨rfl, hshows'⟩

/-- A component that is mounted in a new engine is shown with the variables that were given. -/
theorem Runs.mount_shows (hb : routine.body.Suits Start)
    (hfound : (host.library.resolve name).1 = some routine) (hcancel : host.cancel = {})
    (hplain : scope.Plain) (hstart : Start (host.outlook routine.name scope))
    (hrun : host.start.Runs (.mount name scope :: ops) rs e) (hroom : e.nodes.Roomy) :
    ∃ (rs' : List (Except EngineError Outcome)) (e₁ : Engine),
      rs = .ok (.node ⟨0, 0⟩) :: rs' ∧ e₁.Shows host routine Start scope ⟨0, 0⟩ ∧ e₁.Booked ∧
        e₁.Runs ops rs' e := by
  cases hrun with
  | @cons _ e₁ _ _ _ depth r rs' first rest =>
    have hmount : ((Operation.mount name scope).act depth).Yields host.start fun outcome e' =>
        outcome = .node ⟨0, 0⟩ ∧ e'.Shows host routine Start scope ⟨0, 0⟩ := by
      refine Act.yields_map ((mount_yields hb depth hfound hcancel hplain hstart).imp
        fun id e' hshows => ?_)
      obtain ⟨rfl, hshows⟩ := hshows
      exact ⟨rfl, hshows⟩
    obtain ⟨_, rfl, rfl, hshows⟩ := hmount first (rest.roomy hroom)
    have hbooked : host.start.Booked := ⟨Arena.valid_empty, fun _ c index hc => by cases hc⟩
    exact ⟨rs', e₁, rfl, hshows, (Runs.cons first (.nil e₁)).booked hbooked, rest⟩

/-- All operations of a run that mounts a selective component in a new engine and writes variables of
its root succeed. Afterwards the outline of the root is that of any new engine in which the component
is mounted with the present variables of the root. -/
theorem Runs.outline_remount (hfound : (host.library.resolve name).1 = some routine)
    (hselective : ∀ s ∈ routine.body.steps, s.Selective) (hcancel : host.cancel = {})
    (hsteady : host.translator.cancelOn = none) (hlimit : 1 ≤ host.options.maxUpdateDepth)
    (hplain : scope.Plain) (hwrites : ∀ w ∈ writes, w.2.isPlain = true)
    (hsame : ∀ v w, routine.body.Arises (host.Sees routine.name scope writes) v →
      routine.body.Arises (host.Sees routine.name scope writes) w → v.same w = true → v = w)
    (hrun : host.start.Runs (.mount name scope :: writes.map fun w => .setVar ⟨0, 0⟩ w.1 w.2) rs e)
    (hroom : e.nodes.Roomy) :
    rs = .ok (.node ⟨0, 0⟩) :: writes.map (fun _ => .ok .done) ∧
      e.scopeOf ⟨0, 0⟩ = some (scope.writeAll writes) ∧ ∀ ⦃rs' e'⦄,
        host.start.Runs [.mount name (scope.writeAll writes)] rs' e' → e'.nodes.Roomy →
          rs' = [.ok (.node ⟨0, 0⟩)] ∧ e.outline ⟨0, 0⟩ = e'.outline ⟨0, 0⟩ := by
  have hplains := hplain.history hwrites
  -- one set of outlooks serves both runs: what is seen at the top in the course of the writes
  have hb : routine.body.Suits (host.Sees routine.name scope writes) := by
    refine ⟨hselective, fun o ho => ?_, hsame⟩
    obtain ⟨s, hs, rfl⟩ := ho
    exact Host.quiet_outlook hsteady routine.name (hplains s hs)
  have hsees (s : Scope) (hs : s ∈ scope.history writes) :
      host.Sees routine.name scope writes (host.outlook routine.name s) := ⟨s, hs, rfl⟩
  obtain ⟨rs₁, e₁, rfl, hshows, hbooked, hrest⟩ := hrun.mount_shows hb hfound hcancel hplain
    (hsees scope (Scope.mem_history_self scope writes)) hroom
  obtain ⟨rfl, hshows⟩ := hshows.runs hb hlimit hbooked hplains hsees hrest hroom
  refine ⟨rfl, hshows.scope, fun rs' e' hrun' hroom' => ?_⟩
  have hend := Scope.writeAll_mem_history scope writes
  obtain ⟨rs₂, e₂, rfl, hshows', -, hnil⟩ := hrun'.mount_shows hb hfound hcancel (hplains _ hend)
    (hsees _ hend) hroom'
  cases hnil
  obtain ⟨g, hlaid⟩ := hshows.laid
  obtain ⟨g', hlaid'⟩ := hshows'.laid
  exact ⟨rfl, hlaid.outline_eq hb hlaid' (hshows.outlook.trans hshows'.outlook.symm)⟩

/-- Items are written, of which one was there before, then the condition of a branch, and then what a
set is bound to inside of which the branch is. -/
theorem Runs.outline_remount_nested :
    let host : Host :=
      { library :=
        { registry :=
          { sources := .ofList
              [("Main", "<ul class=\"rows\">\x7b\x7b!#for x in xs # x\x7d\x7d<li class:odd=\"!\x7bx % 2 == 1\x7d\">" ++
                "\x7b\x7b!x\x7d\x7d</li>\x7b\x7b#else\x7d\x7d<p>none</p>\x7b\x7b/for\x7d\x7d</ul>" ++
                "\x7b\x7b!#set y := n + 1\x7d\x7d\x7b\x7b!#if flag\x7d\x7d<b>\x7b\x7b!y\x7d\x7d</b>" ++
                "\x7b\x7b/if\x7d\x7d\x7b\x7b/set\x7d\x7d")] } } }
    let scope : Scope :=
      .ofList [("xs", .list [.int 1, .int 2]), ("n", .int 4), ("flag", .bool false)]
    let writes : List (String × Value) :=
      [("xs", .list [.int 4, .int 1]), ("flag", .bool true), ("n", .int 6)]
    let shown := "[Main]\n  <ul class=\"rows\">\n    #for\n      <li> \"4\"\n      <li class=\"odd\"> \"1\"\n" ++
      "  #set y\n    #if 0\n      <b> \"7\"\n"
    ∃ rs e rs' e',
      host.start.Runs (.mount "Main" scope :: writes.map fun w => .setVar ⟨0, 0⟩ w.1 w.2) rs e ∧
      host.start.Runs [.mount "Main" (scope.writeAll writes)] rs' e' ∧
      e.outline ⟨0, 0⟩ = shown ∧ e'.outline ⟨0, 0⟩ = shown := by
  intro host scope writes shown
  -- both runs are evaluated
  have hgood : (host.start.runAt 9 (.mount "Main" scope :: writes.map fun w =>
      .setVar ⟨0, 0⟩ w.1 w.2)).any (fun p =>
        p.2.outline ⟨0, 0⟩ == shown && p.2.nodes.slots.size < UInt32.size) = true := by
    decide +kernel
  have hgood' : (host.start.runAt 9 [.mount "Main" (scope.writeAll writes)]).any
      (fun p => p.2.nodes.slots.size < UInt32.size) = true := by
    decide +kernel
  -- the template is selective, and the values that arise are compared exactly
  have hchecked : (host.library.resolve "Main").1.any (fun routine =>
      routine.body.steps.all (·.selectiveWithin 9) && (routine.body.found 9
        ((scope.history writes).map (host.outlook routine.name))).all (·.exact)) = true := by
    decide +kernel
  obtain ⟨⟨rs, e⟩, hrun, hgood⟩ := (Option.any_eq_true _ _).1 hgood
  obtain ⟨⟨rs', e'⟩, hrun', hgood'⟩ := (Option.any_eq_true _ _).1 hgood'
  obtain ⟨routine, hfound, hchecked⟩ := (Option.any_eq_true _ _).1 hchecked
  rw [Bool.and_eq_true] at hgood
  rw [Bool.and_eq_true, List.all_eq_true, List.all_eq_true] at hchecked
  obtain ⟨hshown, hroom⟩ := hgood
  obtain ⟨hdepth, hexact⟩ := hchecked
  have hshown : e.outline ⟨0, 0⟩ = shown := eq_of_beq hshown
  have hroom : e.nodes.slots.size < UInt32.size := of_decide_eq_true hroom
  have hroom' : e'.nodes.slots.size < UInt32.size := of_decide_eq_true hgood'
  have hsees (o : Outlook) (ho : host.Sees routine.name scope writes o) :
      o ∈ (scope.history writes).map (host.outlook routine.name) := by
    obtain ⟨s, hs, rfl⟩ := ho
    exact List.mem_map_of_mem hs
  have hplain : scope.Plain := Scope.plain_of_entries (by decide)
  obtain ⟨-, -, hfresh⟩ := Runs.outline_remount hfound
    (fun s hs => Step.selective_of_within (hdepth s hs)) rfl rfl (by decide) hplain (by decide)
    (Body.eq_of_same_of_found hdepth hsees hexact) (runs_of_runAt hrun) hroom
  obtain ⟨-, heq⟩ := hfresh (runs_of_runAt hrun') hroom'
  exact ⟨rs, e, rs', e', runs_of_runAt hrun, runs_of_runAt hrun', hshown, heq ▸ hshown⟩

/-- A switch without an expression reads a variable, but its element is not recorded as a reader. So
when the variable is written, the element goes on to show what a new engine would not. -/
theorem Runs.outline_ne_remount_switch :
    let host : Host :=
      { library := { registry := { sources := .ofList [("Main", "<b class:on=\"x\"></b>")] } } }
    let scope : Scope := .ofList [("x", .bool false)]
    let writes : List (String × Value) := [("x", .bool true)]
    ∃ rs e rs' e',
      host.start.Runs (.mount "Main" scope :: writes.map fun w => .setVar ⟨0, 0⟩ w.1 w.2) rs e ∧
      host.start.Runs [.mount "Main" (scope.writeAll writes)] rs' e' ∧
      (e.scopeOf ⟨0, 0⟩).any (·.same (scope.writeAll writes)) = true ∧
      e.outline ⟨0, 0⟩ ≠ e'.outline ⟨0, 0⟩ := by
  intro host scope writes
  have hwritten : (host.start.runAt 9 (.mount "Main" scope :: writes.map fun w =>
      .setVar ⟨0, 0⟩ w.1 w.2)).any (fun p =>
        (p.2.scopeOf ⟨0, 0⟩).any (·.same (scope.writeAll writes)) &&
          p.2.outline ⟨0, 0⟩ == "[Main]\n  <b>\n") = true := by
    decide +kernel
  have hfresh : (host.start.runAt 9 [.mount "Main" (scope.writeAll writes)]).any (fun p =>
      p.2.outline ⟨0, 0⟩ == "[Main]\n  <b class=\"on\">\n") = true := by
    decide +kernel
  obtain ⟨⟨rs, e⟩, hrun, hwritten⟩ := (Option.any_eq_true _ _).1 hwritten
  obtain ⟨⟨rs', e'⟩, hrun', hfresh⟩ := (Option.any_eq_true _ _).1 hfresh
  obtain ⟨hscope, hshown⟩ := (Bool.and_eq_true _ _).mp hwritten
  refine ⟨rs, e, rs', e', runs_of_runAt hrun, runs_of_runAt hrun', hscope, ?_⟩
  have hshown : e.outline ⟨0, 0⟩ = "[Main]\n  <b>\n" := eq_of_beq hshown
  have hfresh : e'.outline ⟨0, 0⟩ = "[Main]\n  <b class=\"on\">\n" := eq_of_beq hfresh
  rw [hshown, hfresh]
  decide

end Engine
end ReactiveView

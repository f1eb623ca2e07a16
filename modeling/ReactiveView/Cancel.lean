/-!
# Cancellation

Long operations ask a token, at fixed points, whether they should stop. The token is raised by hand,
or by its fuse after a number of polls, and stays raised until it is reset.
-/

namespace ReactiveView

/-- A cancellation token. -/
structure Cancel where
  /-- Whether the token was raised. -/
  raised : Bool := false
  /-- How many polls are left before the token counts as raised; no limit if absent. -/
  fuse : Option Nat := none
deriving DecidableEq, Repr

namespace Cancel

/-- Ask whether to stop; a poll burns down the fuse. -/
def poll (c : Cancel) : Bool × Cancel :=
  match c.fuse with
  | none => (c.raised, c)
  | some 0 => (true, c)
  | some (n + 1) => (c.raised, { c with fuse := some n })

/-- Raise the token. -/
def raise (c : Cancel) : Cancel := { c with raised := true }

/-- Take the token back, its fuse included. -/
def reset (_ : Cancel) : Cancel := {}

end Cancel
end ReactiveView

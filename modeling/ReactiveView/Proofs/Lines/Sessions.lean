import Mathlib
import ReactiveView.Proofs.Lines.Errors
import ReactiveView.Proofs.Lines.Recorded
import ReactiveView.Proofs.Parsing.Trees

/-!
# Errors name lines of the template

A session enters the code of templates again and again: their code blocks, the functions that these
have defined, and expressions. What the lines of its errors mean is said by a second session, in which
each statement of a code block is marked with its own line in the template beforehand: line `s` of a
block that begins on line `L` is line `L + s - 1` (`CodeBlock.marked`). Nothing counts from the start of
a block any more in the marked session, and its statements keep their marks in whatever functions they
are carried around. Both sessions fail with the same errors, and the line of each is the mark of the
innermost statement that was being executed when it arose (`CodeEntry.fails_on_line`).
-/

namespace ReactiveView

open Text (byteLength lineCount)

/-! ## Code blocks -/

/-- A node of a tree. -/
inductive Node.Holds (n : Node) : Node → Prop where
  /-- The tree itself. -/
  | self : Holds n n
  /-- A node of what is inside. -/
  | inside {tree m : Node} (hm : m ∈ tree.inner) (h : Holds n m) : Holds n tree

theorem Node.Everywhere.of_holds {P : Node → Prop} {n tree : Node} (h : tree.Everywhere P)
    (hn : n.Holds tree) : P n := by
  induction hn with
  | self =>
    cases h with
    | intro here inner => exact here
  | inside hm _ ih =>
    cases h with
    | intro here inner => exact ih (inner _ hm)

/-- A code block of a template. -/
structure CodeBlock where
  /-- The template. -/
  template : String
  /-- How it is read. -/
  options : ParserOptions
  /-- Its tree. -/
  tree : Node
  /-- The template is read. -/
  read : parseTemplate template options = .ok tree
  /-- What the block has in common with other nodes. -/
  header : Header
  /-- The text of the block. -/
  text : String
  /-- The statements of the block. -/
  body : List Stmt
  /-- The line on which the text begins. -/
  line : Nat
  /-- The block stands in the tree. -/
  held : (Node.code header text body line).Holds tree

namespace CodeBlock

/-- What the lines of a block count. -/
structure Counts (b : CodeBlock) : Prop where
  /-- The statements are those of the text. -/
  body : parseStatements b.text = .ok b.body
  /-- The text is a part of the template, in the stretch of the block, and it begins on the line. -/
  place : ∃ before after, b.template.toList = before ++ (b.text.toList ++ after) ∧
    b.header.span.start.offset ≤ byteLength before ∧
    byteLength before + byteLength b.text.toList ≤ b.header.span.stop.offset ∧
    b.line = lineCount before
  /-- The lines of the template are counted from one. -/
  line_pos : 1 ≤ b.line
  /-- The lines of statements are lines of the text, counted from one. -/
  lines : ∀ s ∈ Stmt.linesOf b.body, 1 ≤ s ∧ s ≤ lineCount b.text.toList

theorem counts (b : CodeBlock) : b.Counts := by
  obtain ⟨hbody, before, after, hsource, hstart, hstop, hline⟩ :=
    ((parseTemplate_good b.read).2.of_holds b.held).coded
  refine ⟨hbody, ⟨before, after, hsource, hstart, hstop, hline⟩, ?_, parseStatements_lines hbody⟩
  rw [hline]
  exact Nat.le_add_left 1 _

/-- The statements of a block, each with its line in the template. -/
def marked (b : CodeBlock) : List Stmt := Stmt.mapLinesOf (fun s => b.line + s - 1) b.body

theorem marked_eq (b : CodeBlock) : b.marked = Stmt.absoluteOf b.line b.body := by
  refine Stmt.mapLinesOf_congr b.body fun s hs => ?_
  have hline := b.counts.line_pos
  have hpos := (b.counts.lines s hs).1
  rw [lineAt, if_neg (by omega)]
  omega

end CodeBlock

/-! ## Sessions -/

/-- One thing that is done in a session. -/
inductive CodeEntry where
  /-- Run a code block. -/
  | block (b : CodeBlock)
  /-- Call the function that a variable holds. -/
  | call (name : String) (args : List Value)
  /-- Evaluate an expression. -/
  | eval (e : Expr)

/-- How the code of a session is taken. -/
structure Marking where
  /-- How a block is run. -/
  block : CodeBlock → Invocation
  /-- How a value is passed on. -/
  value : Value → Value

/-- Statements count their lines from the start of their block, and the block has its own. -/
def Marking.asRead : Marking := ⟨fun b => .exec b.line b.body, id⟩

/-- Statements have their lines in the template, and no block has a line. -/
def Marking.asMarked : Marking := ⟨fun b => .exec 0 b.marked, Value.absolute⟩

namespace CodeEntry

open Machine

variable {σ : Type} {env : Env (StateM σ)} {H : σ → σ}

/-- The code that is entered. A variable that is not there holds nothing that can be called. -/
def enter (marking : Marking) (env : Env (StateM σ)) : CodeEntry → StateM σ Invocation
  | block b => return marking.block b
  | call name args => do
    let f ← env.lookup name
    return .call (f.getD .null) (args.map marking.value)
  | eval e => return .eval e

/-- The first moment of the run. -/
def start (marking : Marking) (env : Env (StateM σ)) (entry : CodeEntry) (host : σ) : Machine σ :=
  ((entry.enter marking env).run host).1.machine ((entry.enter marking env).run host).2

/-- What the code comes to, and the host afterwards. -/
def run (marking : Marking) (env : Env (StateM σ)) (entry : CodeEntry) (host : σ) :
    Except EvalError Answer × σ :=
  (((entry.enter marking env).run host).1.result env).run.run ((entry.enter marking env).run host).2

/-- The host after a session. Errors do not end it. -/
def after (marking : Marking) (env : Env (StateM σ)) : List CodeEntry → σ → σ
  | [], host => host
  | entry :: entries, host => after marking env entries (entry.run marking env host).2

theorem enter_asMarked (h : env.Opaque H) (entry : CodeEntry) (host : σ) :
    (entry.enter .asMarked env).run (H host) =
      (((entry.enter .asRead env).run host).1.absolute,
        H ((entry.enter .asRead env).run host).2) := by
  cases entry with
  | block b => exact Prod.ext (congrArg (Invocation.exec 0) b.marked_eq) rfl
  | call name args =>
    change (Invocation.call (((env.lookup name).run (H host)).1.getD .null) (args.map Value.absolute),
      ((env.lookup name).run (H host)).2) = _
    have hnone (v : Option Value) : (v.map Value.absolute).getD .null = (v.getD .null).absolute := by
      cases v <;> rfl
    rw [h.lookup]
    refine Prod.ext ?_ rfl
    change Invocation.call (Option.getD (Option.map _ _) .null) _ =
      Invocation.call _ ((args.map id).map Value.absolute)
    rw [List.map_id, hnone]
    rfl
  | eval e => rfl

theorem start_asMarked (h : env.Opaque H) (entry : CodeEntry) (host : σ) :
    entry.start .asMarked env (H host) = (entry.start .asRead env host).absolute H := by
  rw [start, enter_asMarked h]
  exact Invocation.machine_absolute H _ _

theorem run_asMarked (h : env.Opaque H) (entry : CodeEntry) (host : σ) :
    entry.run .asMarked env (H host) =
      ((entry.run .asRead env host).1.map Answer.absolute, H (entry.run .asRead env host).2) := by
  rw [run, enter_asMarked h]
  exact Invocation.result_absolute h _ _

theorem after_asMarked (h : env.Opaque H) (entries : List CodeEntry) (host : σ) :
    after .asMarked env entries (H host) = H (after .asRead env entries host) := by
  induction entries generalizing host with
  | nil => rfl
  | cons entry entries ih =>
    rw [after, after, run_asMarked h]
    exact ih _

/-- Errors name the line of the template on which the failing statement stands. Let code be entered
over a host that takes functions as they are, at any point of a session: a code block, a function that a
variable holds, or an expression. It ends in an error that is no interruption if and only if the error
arises, without a line, at a moment of its run; and then the session in which all statements are marked
with their lines in the template goes through the same moment, and ends in the same error. The line of
the error is the mark of the innermost statement that is executed at that moment, and there is none if no
statement is. The marks are as they should be: the text of each block begins on its line of the template,
and has the statements of the block on its lines, all counted from one. -/
theorem fails_on_line (h : env.Opaque H) (entries : List CodeEntry) (entry : CodeEntry) (host : σ)
    {err : EvalError} (hcause : err.cause ≠ .interrupted) :
    let read := after .asRead env entries host
    let marked := after .asMarked env entries (H host)
    (∀ b : CodeBlock, b.Counts) ∧
    ((entry.run .asMarked env marked).1 = .error err ↔ (entry.run .asRead env read).1 = .error err) ∧
    ((entry.run .asRead env read).1 = .error err ↔
      ∃ m, Steps env (entry.start .asRead env read) m ∧ m.Raises env ⟨err.cause, none⟩ ∧
        Steps env (entry.start .asMarked env marked) (m.absolute H) ∧
        (m.absolute H).Raises env ⟨err.cause, none⟩ ∧ err.line = (m.absolute H).executing?) := by
  intro read marked
  have hmarked : marked = H read := after_asMarked h entries host
  rw [hmarked]
  refine ⟨CodeBlock.counts, ?_, ?_⟩
  · rw [run_asMarked h]
    cases (entry.run .asRead env read).1 with
    | error err' =>
      constructor
      all_goals
        rintro ⟨⟩
        rfl
    | ok a => exact ⟨nofun, nofun⟩
  · rw [start_asMarked h]
    refine (Invocation.error_iff h _ _ hcause).trans (exists_congr fun m => ?_)
    constructor
    · rintro ⟨hm, hraises, hline⟩
      exact ⟨hm, hraises, steps_absolute h hm, hraises.absolute h, hline⟩
    · rintro ⟨hm, hraises, -, -, hline⟩
      exact ⟨hm, hraises, hline⟩

/-- A function of a block that begins on line 1 is called by a block that begins on line 5. The name
that it does not find stands on the third line of its own block. -/
theorem fails_on_line_called : ∃ first second : CodeBlock, first.line = 1 ∧ second.line = 5 ∧
    let read := after .asRead Scope.env [.block first] { scope := .empty }
    let marked := after .asMarked Scope.env [.block first] (Scope.Run.absolute { scope := .empty })
    ((block second).run .asMarked Scope.env marked).1 = .error ⟨.undefined "g", some 3⟩ ∧
    ∃ m, Steps Scope.env ((block second).start .asRead Scope.env read) m ∧
      m.Raises Scope.env ⟨.undefined "g", none⟩ ∧
      Steps Scope.env ((block second).start .asMarked Scope.env marked)
        (m.absolute Scope.Run.absolute) ∧
      (m.absolute Scope.Run.absolute).Raises Scope.env ⟨.undefined "g", none⟩ ∧
      some 3 = (m.absolute Scope.Run.absolute).executing? := by
  have hread : parseTemplate "<python>\nfn f() \x7b\n g\n\x7d</python>\n<python>f()</python>" {} =
      .ok (.root ⟨"$anonymous", [], ⟨⟨0, 1, 1⟩, ⟨52, 5, 21⟩⟩, 0⟩
        [.code ⟨"@python", [], ⟨⟨0, 1, 1⟩, ⟨31, 4, 11⟩⟩, 0⟩ "\nfn f() \x7b\n g\n\x7d"
            [.function 2 "f" [] [.expr 3 (.name "g")]] 1,
          .code ⟨"@python", [], ⟨⟨32, 5, 1⟩, ⟨52, 5, 21⟩⟩, 1⟩ "f()"
            [.expr 1 (.call (.name "f") [])] 5]) := by
    cbv
  let first : CodeBlock := ⟨_, _, _, hread, _, _, _, 1, .inside (.head _) .self⟩
  let second : CodeBlock := ⟨_, _, _, hread, _, _, _, 5, .inside (.tail _ (.head _)) .self⟩
  refine ⟨first, second, rfl, rfl, ?_⟩
  have hcause : (EvalError.mk (.undefined "g") (some 3)).cause ≠ .interrupted := by decide
  have herr : ((block second).run .asRead Scope.env
      (after .asRead Scope.env [block first] { scope := .empty })).1 =
        .error ⟨.undefined "g", some 3⟩ := rfl
  obtain ⟨-, hmarked, hraised⟩ := fails_on_line Scope.opaque_env [block first] (block second)
    { scope := .empty } hcause
  exact ⟨hmarked.2 herr, hraised.1 herr⟩

end CodeEntry
end ReactiveView

import ComputerHost.Script.Interpreter

/-! # Running programs

Programs run against a computer that replies at once: from one suspension to the next in one go. Every
line is executed at most once, so a run ends (`length_rest_execute`).
-/

namespace ComputerHost.Script

namespace Program

theorem rest_drive (p : Program) (loading : Loading) (values : List Value) :
    (p.drive loading values).2.2.rest = p.rest := by
  simp only [drive]
  split <;> rfl

theorem rest_enter (p : Program) (args : List Value) : (p.enter args).2.2.rest = p.rest := by
  simp only [enter]
  split
  · exact rest_drive ..
  · split <;> rfl

/-- Executing a line takes it off the program. -/
theorem rest_execute (st : Interpreter) (p : Program) :
    (p.execute st).2.2.rest = p.rest.tail := by
  simp only [execute]
  split
  · next h => simp [h]
  · next instruction rest h =>
    rw [h]
    cases instruction
    case load name pieces => exact rest_drive ..
    all_goals rfl

theorem length_rest_execute (st : Interpreter) {p : Program} (h : p.rest ≠ []) :
    (p.execute st).2.2.rest.length < p.rest.length := by
  rw [rest_execute]
  cases hr : p.rest with
  | nil => exact absurd hr h
  | cons _ rest => simp

end Program

/-- A run of a program with a world that its computer is part of. -/
structure Run (ω : Type) where
  log : List String
  result : Resumed
  interpreter : Interpreter
  program : Program
  world : ω

variable {ω : Type} (serve : Request → ω → Reply × ω)

/-- Ask the computer, if that is what the turn is. -/
def Turn.answered (turn : Turn) (st : Interpreter) (world : ω) :
    List String × Turn × Interpreter × ω :=
  match turn with
  | .ask request =>
    let (reply, world) := serve request world
    let (lines, turn) := request.resolve reply
    (lines, turn, st.applyHooks reply.hookChanges, world)
  | turn => ([], turn, st, world)

/-- Run a program to its next suspension or its end. -/
def Program.run (st : Interpreter) (p : Program) (world : ω) : Run ω :=
  if _h : p.rest = [] then ⟨[], .finished, st, p, world⟩
  else
    let line := p.execute st
    let (lines, turn, st, world) := line.2.1.answered serve st world
    let log := line.1 ++ lines
    match turn with
    | .next | .ask _ =>
      let run := Program.run st line.2.2 world
      { run with log := log ++ run.log }
    | .suspend values => ⟨log, .yielded values, st, line.2.2, world⟩
    | .finish => ⟨log, .finished, st, line.2.2, world⟩
    | .fail e => ⟨log, .failed e, st, line.2.2, world⟩
    | .panic message => ⟨log, .panicked message, st, line.2.2, world⟩
termination_by p.rest.length
decreasing_by exact length_rest_execute _ ‹_›

namespace Interpreter

/-- Go on with a program that is resumed, to its next suspension or its end. -/
def goOn (st : Interpreter) (p : Program) (args : List Value) (world : ω) : Run ω :=
  let (log, turn, p) := p.enter args
  match turn with
  | .next | .ask _ =>
    let run := p.run serve st world
    { run with log := log ++ run.log }
  | .suspend values => ⟨log, .yielded values, st, p, world⟩
  | .finish => ⟨log, .finished, st, p, world⟩
  | .fail e => ⟨log, .failed e, st, p, world⟩
  | .panic message => ⟨log, .panicked message, st, p, world⟩

/-- Resume a coroutine: the lines it logs, how the resume ends, the state and the world. A coroutine
that does not suspend is dead afterwards. -/
def resume (st : Interpreter) (co : Nat) (args : List Value) (world : ω) :
    List String × Resumed × Interpreter × ω :=
  match st.take co with
  | .error e => ([], .failed e, st, world)
  | .ok (program, st) =>
    let run := st.goOn serve program args world
    match run.result with
    | .yielded values =>
      (run.log, .yielded values, run.interpreter.put co run.program, run.world)
    | result => (run.log, result, run.interpreter, run.world)

end Interpreter

end ComputerHost.Script

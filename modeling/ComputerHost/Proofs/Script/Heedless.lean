import Mathlib.Data.List.Forall2
import ComputerHost.Script.Interpreter

/-!
# What a load is resumed with

A program that is suspended in a load is resumed with the values of some event. Nobody looks at them: the
pieces of a load are handed over whatever comes. So programs that are the same but for such values that
are still under way go on in the same way.

Results:
1. `alike_runWorker`, `alike_loading_step`: loads.
2. `alike_execute`, `alike_enter`: programs.
-/

namespace ComputerHost

open Load

namespace Script

/-- The same message, but for the values to go on with. -/
inductive MessageAlike : OwnerMessage → OwnerMessage → Prop
  | resume (values values' : List Value) : MessageAlike (.resume values) (.resume values')
  | cancel : MessageAlike .cancel .cancel

/-- The same worker, but for the values that it is about to hand on. -/
inductive WorkerAlike : Worker Verbatim → Worker Verbatim → Prop
  | same (worker : Worker Verbatim) : WorkerAlike worker worker
  | supplying (s : Verbatim) (args args' : List Value) :
      WorkerAlike (.supplying s args) (.supplying s args')

/-- The same load, but for the values that are under way to its supplier. -/
inductive BridgeAlike (b : Bridge Verbatim (List String)) : Bridge Verbatim (List String) → Prop
  | mk {worker : Worker Verbatim} {toWorker : List OwnerMessage} : WorkerAlike b.worker worker →
      List.Forall₂ MessageAlike b.toWorker toWorker → BridgeAlike b { b with worker, toWorker }

inductive OperationAlike : Operation Verbatim (List String) → Operation Verbatim (List String) → Prop
  | blocking (name : String) (supplier : List String) (spent : Bool) :
      OperationAlike (.blocking name supplier spent) (.blocking name supplier spent)
  | bridged {b b' : Bridge Verbatim (List String)} : BridgeAlike b b' →
      OperationAlike (.bridged b) (.bridged b')

inductive Loading.Alike (l : Loading) : Loading → Prop
  | mk {operation : Operation Verbatim (List String)} : OperationAlike l.operation operation →
      Alike l { l with operation }

/-- The same program, but for the values that are under way in its load. -/
inductive Program.Alike (p : Program) : Program → Prop
  | mk {loading : Option Loading} : Option.Rel Loading.Alike p.loading loading →
      Alike p { p with loading }

/-- The same answer, and something that is still alike. -/
structure AnswersAlike {α β : Type} (r : α → β → Prop) (x : Progress × α) (y : Progress × β) :
    Prop where
  progress : x.1 = y.1
  rest : r x.2 y.2

/-- The same lines, the same turn, and programs that are still alike. -/
structure GoesAlike (x y : List String × Turn × Program) : Prop where
  lines : x.1 = y.1
  turn : x.2.1 = y.2.1
  program : x.2.2.Alike y.2.2

section
variable {b b' : Bridge Verbatim (List String)} {l l' : Loading} {p p' : Program} {n : Nat}
  {values values' : List Value}

/-! ## 1. Loads -/

theorem messages_refl (messages : List OwnerMessage) : List.Forall₂ MessageAlike messages messages :=
  List.forall₂_same.mpr fun message _ => by cases message <;> constructor

theorem BridgeAlike.refl (b : Bridge Verbatim (List String)) : BridgeAlike b b :=
  ⟨.same b.worker, messages_refl b.toWorker⟩

theorem OperationAlike.refl (o : Operation Verbatim (List String)) : OperationAlike o o := by
  cases o with
  | blocking => exact .blocking ..
  | bridged b => exact .bridged (.refl b)

theorem Loading.Alike.refl (l : Loading) : l.Alike l := ⟨.refl l.operation⟩

theorem resume_heedless (rest : List String) (args args' : List Value) :
    pieces.resume rest args = pieces.resume rest args' := by
  unfold pieces
  dsimp only
  split <;> rfl

theorem alike_workerMove? (ha : BridgeAlike b b') :
    Option.Rel BridgeAlike (b.workerMove? verbatim pieces) (b'.workerMove? verbatim pieces) := by
  obtain ⟨hworker, hmessages⟩ := ha
  obtain ⟨name, worker, supplier, abandoned, toOwner, toWorker, phase, roundTrips, joined⟩ := b
  have hmove (worker : Worker Verbatim) (supplier : List String) (toOwner : List WorkerMessage) :
      Option.Rel BridgeAlike
        (some ⟨name, worker, supplier, abandoned, toOwner, toWorker, phase, roundTrips, joined⟩)
        (some ⟨name, worker, supplier, abandoned, toOwner, _, phase, roundTrips, joined⟩) :=
    .some ⟨.same worker, hmessages⟩
  cases hworker with
  | supplying s args args' =>
    unfold Bridge.workerMove?
    simp only [resume_heedless supplier args args']
    exact hmove ..
  | same worker =>
    cases worker with
    | parsing s =>
      unfold Bridge.workerMove?
      dsimp only
      split
      · split
        · exact hmove ..
        · exact hmove ..
      · exact hmove ..
      · split
        · exact hmove ..
        · exact hmove ..
    | supplying | posting | reporting | leaving => exact hmove ..
    | parked s =>
      cases hmessages with
      | nil => exact .none
      | cons hmessage hrest =>
        cases hmessage with
        | resume values values' => exact .some ⟨.supplying s values values', hrest⟩
        | cancel => exact .some ⟨.same _, hrest⟩
    | exited => exact .none

theorem alike_runWorker (ha : BridgeAlike b b') :
    BridgeAlike (b.runWorker verbatim pieces n) (b'.runWorker verbatim pieces n) := by
  induction n generalizing b b' with
  | zero => exact ha
  | succ n ih =>
    have hmove := alike_workerMove? ha
    rw [Bridge.runWorker, Bridge.runWorker]
    generalize b.workerMove? verbatim pieces = moved at hmove ⊢
    generalize b'.workerMove? verbatim pieces = moved' at hmove ⊢
    cases hmove with
    | none => exact ha
    | some hmoved => exact ih hmoved

theorem hasExited_alike (ha : BridgeAlike b b') : b'.hasExited = b.hasExited := by
  obtain ⟨hworker, -⟩ := ha
  obtain ⟨name, worker, supplier, abandoned, toOwner, toWorker, phase, roundTrips, joined⟩ := b
  cases hworker <;> rfl

theorem alike_receive? (ha : BridgeAlike b b') :
    Option.Rel (AnswersAlike BridgeAlike) b.receive? b'.receive? := by
  have hexited := hasExited_alike ha
  obtain ⟨hworker, hmessages⟩ := ha
  unfold Bridge.receive?
  rw [hexited]
  dsimp only
  split
  · exact .some ⟨rfl, hworker, hmessages⟩
  · split
    · exact .some ⟨rfl, hworker, hmessages⟩
    · exact .none
  · split
    · exact .some ⟨rfl, hworker, hmessages⟩
    · exact .none

theorem alike_bridge_step (ha : BridgeAlike b b') (n : Nat) (values values' : List Value) :
    Option.Rel (AnswersAlike BridgeAlike) (b.step verbatim pieces n values)
      (b'.step verbatim pieces n values') := by
  have hrun {b₁ b₁' : Bridge Verbatim (List String)} (hb : BridgeAlike b₁ b₁') :
      Option.Rel (AnswersAlike BridgeAlike) (b₁.runWorker verbatim pieces n).receive?
        (b₁'.runWorker verbatim pieces n).receive? :=
    alike_receive? (alike_runWorker hb)
  have hexited := hasExited_alike ha
  obtain ⟨hworker, hmessages⟩ := ha
  obtain ⟨name, worker, supplier, abandoned, toOwner, toWorker, phase, roundTrips, joined⟩ := b
  unfold Bridge.step Bridge.beginStep
  rw [hexited]
  cases phase with
  | idle | workerRunning => exact hrun ⟨hworker, hmessages⟩
  | workerDone | cancelled => exact .some ⟨rfl, hworker, hmessages⟩
  | workerYielded =>
    generalize Bridge.hasExited _ = exited
    have htold := List.rel_append hmessages (.cons (MessageAlike.resume values values') .nil)
    cases exited with
    | true => exact .some ⟨rfl, hworker, hmessages⟩
    | false => exact hrun ⟨hworker, htold⟩

theorem alike_loading_step (ha : l.Alike l') (values values' : List Value) :
    AnswersAlike Loading.Alike (l.step values) (l'.step values') := by
  obtain ⟨hoperation⟩ := ha
  obtain ⟨name, operation⟩ := l
  cases hoperation with
  | blocking label supplier spent =>
    have hsame : Loading.step ⟨name, .blocking label supplier spent⟩ values' =
        Loading.step ⟨name, .blocking label supplier spent⟩ values := by
      cases spent <;> rfl
    show AnswersAlike _ _ (Loading.step ⟨name, .blocking label supplier spent⟩ values')
    rw [hsame]
    exact ⟨rfl, .refl _⟩
  | @bridged b b' hb =>
    have hstep := alike_bridge_step hb (4 * b.supplier.length + 8) values values'
    obtain ⟨hworker, hmessages⟩ := hb
    unfold Loading.step Loading.remaining Operation.step
    dsimp only
    generalize b.step verbatim pieces _ values = x at hstep ⊢
    generalize Bridge.step verbatim pieces _ _ values' = y at hstep ⊢
    cases hstep with
    | none => exact ⟨rfl, ⟨.bridged ⟨hworker, hmessages⟩⟩⟩
    | some hanswers => exact ⟨hanswers.progress, ⟨.bridged hanswers.rest⟩⟩

/-! ## 2. Programs -/

theorem Program.Alike.refl (p : Program) : p.Alike p := by
  refine ⟨?_⟩
  cases p.loading with
  | none => exact .none
  | some l => exact .some (.refl l)

theorem GoesAlike.refl (x : List String × Turn × Program) : GoesAlike x x := ⟨rfl, rfl, .refl _⟩

theorem alike_drive (ha : p.Alike p') (hl : l.Alike l') (values values' : List Value) :
    GoesAlike (p.drive l values) (p'.drive l' values') := by
  obtain ⟨hloading⟩ := ha
  have hname : l'.name = l.name := by
    obtain ⟨-⟩ := hl
    rfl
  have hstep := alike_loading_step hl values values'
  unfold Program.drive Loading.report
  rw [hname]
  generalize l.step values = x at hstep ⊢
  generalize l'.step values' = y at hstep ⊢
  obtain ⟨progress, l₁⟩ := x
  obtain ⟨progress', l₁'⟩ := y
  obtain ⟨rfl, hrest⟩ := hstep
  cases progress with
  | yielded values => exact ⟨rfl, rfl, ⟨.some hrest⟩⟩
  | done | panicked => exact ⟨rfl, rfl, ⟨.none⟩⟩

/-- Programs that are alike execute a line in the same way. -/
theorem alike_execute (ha : p.Alike p') (st : Interpreter) :
    GoesAlike (p.execute st) (p'.execute st) := by
  obtain ⟨hloading⟩ := ha
  obtain ⟨name, executed, lines, awaitingEvent, loading⟩ := p
  cases lines with
  | nil => exact ⟨rfl, rfl, ⟨hloading⟩⟩
  | cons instruction rest =>
    cases instruction with
    | load chunk pieces =>
      let next : Program := ⟨name, executed + 1, rest, awaitingEvent, loading⟩
      exact alike_drive (p := next) ⟨hloading⟩ (.refl _) [] []
    | _ => exact ⟨rfl, rfl, ⟨hloading⟩⟩

/-- Programs that are alike go on in the same way with other values, apart from a line about those. -/
theorem alike_enter {r : String → String → Prop} (hr : ∀ line, r line line) (ha : p.Alike p')
    {args args' : List Value}
    (hargs : r ("event " ++ Value.displayAll args) ("event " ++ Value.displayAll args')) :
    List.Forall₂ r (p.enter args).1 (p'.enter args').1 ∧
      (p.enter args).2.1 = (p'.enter args').2.1 ∧ (p.enter args).2.2.Alike (p'.enter args').2.2 := by
  obtain ⟨hloading⟩ := ha
  obtain ⟨name, executed, rest, awaitingEvent, loading⟩ := p
  cases hloading with
  | none =>
    cases awaitingEvent with
    | true => exact ⟨.cons hargs .nil, rfl, .refl _⟩
    | false => exact ⟨.nil, rfl, .refl _⟩
  | @some l l' hl =>
    have hdrive := alike_drive (p := ⟨name, executed, rest, awaitingEvent, some l⟩)
      ⟨.some hl⟩ hl args args'
    refine ⟨?_, hdrive.turn, hdrive.program⟩
    show List.Forall₂ r (Program.drive _ l args).1 (Program.drive _ l' args').1
    rw [← hdrive.lines]
    exact List.forall₂_same.mpr fun line _ => hr line

end

end Script

end ComputerHost

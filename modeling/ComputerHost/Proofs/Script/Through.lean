import Mathlib.Algebra.Ring.Nat
import ComputerHost.Proofs.Script.Loading
import ComputerHost.Proofs.Script.Smooth
import ComputerHost.Script.Run

/-!
# Programs that go through their loads

A program whose loads may suspend is resumed with anything at all while it is in a load. It does what the
same program does without the tildes, loading at once, and suspends once more for each tilde that it
comes to. `Run.through?` goes on with a run through its loads, `Run.Echoes` says how the two runs compare,
and `Run.ComesTo` that the one comes to the other.

Results:
1. `run_keeps`: what every line keeps, a run keeps.
2. `through?_drive`: a load line.
3. `comesTo_run`, `comesTo_goOn`: a program up to its next suspension outside of loads.
-/

namespace ComputerHost.Script

open Load

/-- How often the line suspends in a load. -/
def Instruction.pauses : Instruction → Nat
  | .load _ pieces => tildes pieces
  | _ => 0

def pausesOf (lines : List Instruction) : Nat := (lines.map Instruction.pauses).sum

/-- The state with the loader that loads at once. -/
def Interpreter.atOnce (st : Interpreter) : Interpreter := { st with loader := .blocking }

/-- The program is not in a load, and its loads may suspend. -/
structure Program.Ready (st : Interpreter) (p : Program) : Prop where
  loader : st.loader = .yieldable
  loading : p.loading = none
  full : ∀ line ∈ p.rest, line.Full

variable {ω : Type} (serve : Request → ω → Reply × ω)

namespace Run

def after (log : List String) (run : Run ω) : Run ω := { run with log := log ++ run.log }

/-- A program goes on after a line. -/
def ofTurn (log : List String) (turn : Turn) (st : Interpreter) (p : Program) (world : ω) : Run ω :=
  match turn with
  | .next | .ask _ => (p.run serve st world).after log
  | .suspend values => ⟨log, .yielded values, st, p, world⟩
  | .finish => ⟨log, .finished, st, p, world⟩
  | .fail e => ⟨log, .failed e, st, p, world⟩
  | .panic message => ⟨log, .panicked message, st, p, world⟩

/-- Has the program suspended in a load? -/
def isLoading (run : Run ω) : Bool :=
  match run.result with
  | .yielded _ => run.program.loading.isSome
  | _ => false

/-- Go on with these values, one after the other, while the program is suspended in a load. There is no
answer if it suspends there more or less often than that, or with values. -/
def through? (run : Run ω) : List (List Value) → Option (Run ω)
  | [] => if run.isLoading then none else some run
  | filler :: later =>
    if run.isLoading ∧ run.result = .yielded [] then
      (through? (run.interpreter.goOn serve run.program filler run.world) later).map (after run.log)
    else none

/-- How many lines of a program a run has executed. -/
def executed (run : Run ω) (p : Program) : Nat := p.rest.length - run.program.rest.length

/-- The second run is the first one without tildes and at once. -/
structure Echoes (run run' : Run ω) : Prop where
  log : run'.log = run.log
  result : run'.result = run.result
  interpreter : run'.interpreter = run.interpreter.atOnce
  program : run'.program = run.program.smooth
  world : run'.world = run.world
  ready : run.program.Ready run.interpreter

/-- The second run is what the first one comes to that goes through its loads, with one resume for each
tilde of the lines that have been executed. -/
def ComesTo (p : Program) (run run' : Run ω) : Prop :=
  ∀ fillers : List (List Value), fillers.length = pausesOf (p.rest.take (run'.executed p)) →
    ∃ through, run.through? serve fillers = some through ∧ through.Echoes run'

end Run

section
variable {serve} {st : Interpreter} {p : Program} {world : ω} {name source : String} {ps : List String}

/-! ## 1. Runs -/

theorem run_nil (hrest : p.rest = []) :
    p.run serve st world = ⟨[], .finished, st, p, world⟩ := by
  rw [Program.run, dif_pos hrest]

theorem run_eq (hrest : p.rest ≠ []) : p.run serve st world =
    let line := p.execute st
    let (lines, turn, st, world) := line.2.1.answered serve st world
    Run.ofTurn serve (line.1 ++ lines) turn st line.2.2 world := by
  rw [Program.run, dif_neg hrest]
  dsimp only
  cases ((p.execute st).2.1.answered serve st world).2.1 <;> rfl

theorem goOn_eq (st : Interpreter) (p : Program) (args : List Value) (world : ω) :
    st.goOn serve p args world =
      let (log, turn, p) := p.enter args
      Run.ofTurn serve log turn st p world := by
  unfold Interpreter.goOn
  dsimp only
  cases (p.enter args).2.1 <;> rfl

theorem atOnce_answered (turn : Turn) (st : Interpreter) (world : ω) :
    turn.answered serve st.atOnce world =
      ((turn.answered serve st world).1, (turn.answered serve st world).2.1,
        (turn.answered serve st world).2.2.1.atOnce, (turn.answered serve st world).2.2.2) := by
  cases turn <;> rfl

theorem loader_answered (turn : Turn) (st : Interpreter) (world : ω) :
    (turn.answered serve st world).2.2.1.loader = st.loader := by
  cases turn <;> rfl

/-- What every line keeps, a run keeps. -/
theorem run_keeps {K : Interpreter → Program → Prop}
    (hline : ∀ {st : Interpreter} {p : Program} {world : ω}, K st p →
      K ((p.execute st).2.1.answered serve st world).2.2.1 (p.execute st).2.2) (h : K st p) :
    K (p.run serve st world).interpreter (p.run serve st world).program := by
  induction hrest : p.rest generalizing p st world with
  | nil => rwa [run_nil hrest]
  | cons line rest ih =>
    have hleft : (p.execute st).2.2.rest = rest := by rw [Program.rest_execute, hrest, List.tail_cons]
    rw [run_eq (hrest ▸ List.cons_ne_nil line rest)]
    dsimp only
    unfold Run.ofTurn
    split
    · exact ih (hline h) hleft
    · exact ih (hline h) hleft
    all_goals exact hline h

/-- The lines that are left after a run are the last of those that were left before. -/
theorem rest_run (p : Program) (st : Interpreter) (world : ω) :
    (p.run serve st world).program.rest <:+ p.rest := by
  refine run_keeps (K := fun _ q => q.rest <:+ p.rest) (fun {st q world} h => ?_) List.suffix_rfl
  rw [Program.rest_execute]
  exact (List.tail_suffix _).trans h

/-- Programs do not touch coroutines. -/
theorem coroutines_run (p : Program) (st : Interpreter) (world : ω) :
    (p.run serve st world).interpreter.coroutines = st.coroutines := by
  refine run_keeps (K := fun st' _ => st'.coroutines = st.coroutines) (fun {st' q world} h => ?_) rfl
  rw [← h]
  cases (q.execute st').2.1 <;> rfl

theorem rest_ofTurn (log : List String) (turn : Turn) (st : Interpreter) (p : Program) (world : ω) :
    (Run.ofTurn serve log turn st p world).program.rest <:+ p.rest := by
  cases turn with
  | next | ask => exact rest_run ..
  | _ => exact List.suffix_rfl

theorem rest_goOn (st : Interpreter) (p : Program) (args : List Value) (world : ω) :
    (st.goOn serve p args world).program.rest <:+ p.rest := by
  rw [goOn_eq]
  dsimp only
  rw [← Program.rest_enter p args]
  exact rest_ofTurn ..

/-- Nor do programs that are resumed touch coroutines. -/
theorem coroutines_goOn (st : Interpreter) (p : Program) (args : List Value) (world : ω) :
    (st.goOn serve p args world).interpreter.coroutines = st.coroutines := by
  rw [goOn_eq]
  dsimp only
  cases (p.enter args).2.1 with
  | next | ask => exact coroutines_run ..
  | _ => rfl

/-! ## 2. Loads -/

theorem map_after_nil (answer : Option (Run ω)) : answer.map (Run.after []) = answer := by
  cases answer <;> rfl

theorem after_after (first second : List String) (run : Run ω) :
    (run.after second).after first = run.after (first ++ second) := by
  simp [Run.after]

theorem through?_after (log : List String) (run : Run ω) (fillers : List (List Value)) :
    (run.after log).through? serve fillers = (run.through? serve fillers).map (.after log) := by
  cases fillers with
  | nil =>
    have hloading : (run.after log).isLoading = run.isLoading := rfl
    rw [Run.through?, Run.through?, hloading]
    split <;> rfl
  | cons filler later =>
    have hloading : (run.after log).isLoading = run.isLoading := rfl
    have hresult : (run.after log).result = run.result := rfl
    rw [Run.through?, Run.through?, hloading, hresult]
    split
    · rw [Option.map_map]
      congr 1
      funext later
      exact (after_after ..).symm
    · rfl

theorem report_congr {l l' : Loading} (hname : l.name = l'.name) (result : Except LoadError Value) :
    l.report result = l'.report result := by
  unfold Loading.report
  rw [hname]

/-- A program in a load drives it on, whatever it is resumed with. -/
theorem enter_loading (p : Program) (l : Loading) (args : List Value) :
    ({ p with loading := some l } : Program).enter args = p.drive l args := rfl

/-- A load line suspends once for each of its tildes, and reports what it has come to. -/
theorem through?_drive {l : Loading} {values : List Value} {first later : List (List Value)}
    (hadvances : Loading.Advances name (halt name source ps) (l.step values)) (hname : l.name = name)
    (hfull : "" ∉ ps) (hloading : p.loading = none) (hcount : first.length = tildes ps) :
    (Run.ofTurn serve (p.drive l values).1 (p.drive l values).2.1 st (p.drive l values).2.2
      world).through? serve (first ++ later) =
    ((p.run serve st world).after [l.report (final name source ps)]).through? serve later := by
  -- Induction on the fillers: one for each tilde that the load comes to.
  induction first generalizing l values source ps with
  | nil =>
    cases hh : halt name source ps with
    | suspends source' rest =>
      obtain ⟨-, -, htildes, -⟩ := final_of_suspends hh
      exact absurd hcount (by rw [htildes]; exact Nat.noConfusion)
    | ends result =>
      obtain ⟨hfinal, -⟩ := final_of_ends hh hfull
      rw [hh] at hadvances
      obtain ⟨hdone, -⟩ := hadvances
      have hdrive : p.drive l values = ([l.report result], .next, p) := by
        rw [Program.drive, show l.step values = (.done result, (l.step values).2) from
          Prod.ext hdone rfl, ← hloading]
      rw [hdrive, hfinal]
      rfl
  | cons filler first ih =>
    cases hh : halt name source ps with
    | ends result =>
      obtain ⟨-, htildes⟩ := final_of_ends hh hfull
      exact absurd hcount (by rw [htildes]; exact Nat.noConfusion)
    | suspends source' rest =>
      obtain ⟨hfinal, -, htildes, hsub⟩ := final_of_suspends hh
      rw [hh] at hadvances
      obtain ⟨hyielded, hname', hparked⟩ := hadvances
      have hdrive : p.drive l values =
          ([], .suspend [], { p with loading := some (l.step values).2 }) := by
        rw [Program.drive, show l.step values = (.yielded [], (l.step values).2) from
          Prod.ext hyielded rfl]
      have hnext := advances_parked hparked filler
      rw [hname'] at hnext
      have hon := ih hnext hname' (fun hmem => hfull (hsub hmem)) (by
        rw [htildes, List.length_cons] at hcount
        exact Nat.succ.inj hcount)
      rw [hdrive, hfinal, report_congr (hname.trans hname'.symm), ← hon]
      show Run.through? serve ⟨[], .yielded [], st, _, world⟩ (filler :: (first ++ later)) = _
      rw [Run.through?, if_pos ⟨rfl, rfl⟩, goOn_eq, enter_loading]
      exact map_after_nil _

/-! ## 3. From one suspension to the next -/

theorem load_or_not (line : Instruction) :
    (∃ name pieces, line = .load name pieces) ∨ ∀ name pieces, line ≠ .load name pieces := by
  cases line with
  | load name pieces => exact .inl ⟨name, pieces, rfl⟩
  | _ => exact .inr fun _ _ h => nomatch h

/-- Any other line than a load is the same in both programs. -/
theorem execute_other {line : Instruction} {rest : List Instruction} (st : Interpreter)
    (hrest : p.rest = line :: rest) (hline : ∀ name pieces, line ≠ .load name pieces) :
    line.pauses = 0 ∧ (p.execute st).2.2.loading = p.loading ∧
      p.smooth.execute st.atOnce =
        ((p.execute st).1, (p.execute st).2.1, (p.execute st).2.2.smooth) := by
  have hsmooth : p.smooth.rest = line.smooth :: rest.map Instruction.smooth := by
    simp [Program.smooth, hrest]
  unfold Program.execute
  rw [hsmooth, hrest]
  cases line with
  | load name pieces => exact absurd rfl (hline name pieces)
  | _ => exact ⟨rfl, rfl, rfl⟩

theorem answered_drive (l : Loading) (values : List Value) :
    (p.drive l values).2.1.answered serve st world = ([], (p.drive l values).2.1, st, world) := by
  unfold Program.drive
  split <;> rfl

/-- A run that begins with a load that may suspend. -/
theorem run_load {rest : List Instruction} (hrest : p.rest = .load name ps :: rest)
    (hloader : st.loader = .yieldable) :
    p.run serve st world =
      let q : Program := { p with rest, executed := p.executed + 1 }
      let driven := q.drive ⟨name, Loader.yieldable.start verbatim name ps⟩ []
      Run.ofTurn serve driven.1 driven.2.1 st driven.2.2 world := by
  have hexecute : p.execute st = Program.drive { p with rest, executed := p.executed + 1 }
      ⟨name, Loader.yieldable.start verbatim name ps⟩ [] := by
    rw [Program.execute, hrest, ← hloader]
  rw [run_eq (by simp [hrest]), hexecute]
  dsimp only
  rw [answered_drive, List.append_nil]

/-- The same run of the program without tildes, loading at once. -/
theorem run_smooth_load {rest : List Instruction} (hrest : p.rest = .load name ps :: rest)
    (hloading : p.loading = none) :
    p.smooth.run serve st.atOnce world = Run.ofTurn serve
      [Loading.report ⟨name, Loader.yieldable.start verbatim name ps⟩ (final name "" ps)] .next
      st.atOnce ({ p with rest, executed := p.executed + 1 } : Program).smooth world := by
  have hsmooth : p.smooth.rest =
      .load name (ps.filter (· ≠ "~")) :: rest.map Instruction.smooth := by
    simp [Program.smooth, hrest, Instruction.smooth]
  obtain ⟨l, hstep⟩ := step_blocking name (show "~" ∉ ps.filter (· ≠ "~") by simp) []
  rw [final_filter] at hstep
  have hexecute : p.smooth.execute st.atOnce =
      ([Loading.report ⟨name, Loader.yieldable.start verbatim name ps⟩ (final name "" ps)], .next,
        ({ p with rest, executed := p.executed + 1 } : Program).smooth) := by
    unfold Program.execute
    rw [hsmooth]
    show Program.drive _ ⟨name, Loader.blocking.start verbatim name _⟩ [] = _
    rw [Program.drive, hstep, Program.smooth, hloading]
    rfl
  rw [run_eq (by simp [hsmooth]), hexecute]
  rfl

/-- A line that leads out of the program, or to a suspension outside of loads. -/
theorem comesTo_stays (log : List String) (result : Resumed) (hready : p.Ready st) :
    Run.ComesTo serve p ⟨log, result, st, p, world⟩ ⟨log, result, st.atOnce, p.smooth, world⟩ := by
  intro fillers hcount
  have hnone : Run.isLoading ⟨log, result, st, p, world⟩ = false := by
    unfold Run.isLoading
    split
    · exact congrArg Option.isSome hready.loading
    · rfl
  obtain rfl : fillers = [] := by simpa [Run.executed, Program.smooth, pausesOf] using hcount
  refine ⟨⟨log, result, st, p, world⟩, ?_, ⟨rfl, rfl, rfl, rfl, rfl, hready⟩⟩
  rw [Run.through?, hnone]
  rfl

/-- Any line of a program. -/
theorem comesTo_ofTurn {log : List String} {turn : Turn} (hready : p.Ready st)
    (hrun : Run.ComesTo serve p (p.run serve st world) (p.smooth.run serve st.atOnce world)) :
    Run.ComesTo serve p (Run.ofTurn serve log turn st p world)
      (Run.ofTurn serve log turn st.atOnce p.smooth world) := by
  have hgoes : Run.ComesTo serve p ((p.run serve st world).after log)
      ((p.smooth.run serve st.atOnce world).after log) := by
    intro fillers hcount
    obtain ⟨run, hthrough, hechoes⟩ := hrun fillers hcount
    refine ⟨run.after log, ?_, { hechoes with log := congrArg (log ++ ·) hechoes.log }⟩
    rw [through?_after, hthrough]
    rfl
  cases turn with
  | next => exact hgoes
  | ask => exact hgoes
  | suspend | finish | fail | panic => exact comesTo_stays _ _ hready

/-- The lines that a run has executed are the first one and those that it has executed after it. -/
theorem pausesOf_executed {q : Program} {line : Instruction} (hrest : p.rest = line :: q.rest)
    (log : List String) (turn : Turn) (st : Interpreter) (world : ω) :
    pausesOf (p.rest.take ((Run.ofTurn serve log turn st q.smooth world).executed p)) =
      line.pauses +
        pausesOf (q.rest.take ((Run.ofTurn serve log turn st q.smooth world).executed q)) := by
  have hle : (Run.ofTurn serve log turn st q.smooth world).program.rest.length ≤ q.rest.length := by
    have hsuffix : (Run.ofTurn serve log turn st q.smooth world).program.rest <:+ q.smooth.rest :=
      rest_ofTurn ..
    simpa [Program.smooth] using hsuffix.length_le
  have hexecuted : (Run.ofTurn serve log turn st q.smooth world).executed p =
      (Run.ofTurn serve log turn st q.smooth world).executed q + 1 := by
    unfold Run.executed
    rw [hrest, List.length_cons]
    omega
  rw [hexecuted, hrest, List.take_succ_cons]
  rfl

theorem append_of_length {α : Type} {l : List α} {m n : Nat} (h : l.length = m + n) :
    ∃ first later, l = first ++ later ∧ first.length = m ∧ later.length = n :=
  ⟨l.take m, l.drop m, (List.take_append_drop m l).symm, by simp [h], by simp [h]⟩

/-- A program up to its next suspension outside of loads. -/
theorem comesTo_run (hready : p.Ready st) :
    Run.ComesTo serve p (p.run serve st world) (p.smooth.run serve st.atOnce world) := by
  -- Induction on the lines that are left. A load line uses up fillers of its own, any other line none.
  induction hrest : p.rest generalizing p st world with
  | nil =>
    have hsmooth : p.smooth.rest = [] := by simp [Program.smooth, hrest]
    rw [run_nil hsmooth, run_nil hrest]
    exact comesTo_stays _ _ hready
  | cons line rest ih =>
    intro fillers hcount
    obtain ⟨name, ps, rfl⟩ | hline := load_or_not line
    · let q : Program := { p with rest, executed := p.executed + 1 }
      have hready' : q.Ready st := ⟨hready.loader, hready.loading, fun i hi =>
        hready.full i (hrest ▸ List.mem_cons_of_mem _ hi)⟩
      have hps : (Instruction.load name ps).Full := hready.full _ (hrest ▸ List.mem_cons_self)
      rw [run_smooth_load hrest hready.loading] at hcount ⊢
      rw [pausesOf_executed (q := q) hrest] at hcount
      -- The first of the fillers are for the suspensions of this load.
      obtain ⟨first, later, rfl, hfirst, hlater⟩ := append_of_length hcount
      obtain ⟨run, hthrough, hechoes⟩ := comesTo_ofTurn hready' (ih hready' rfl) later hlater
      refine ⟨run, ?_, hechoes⟩
      rw [run_load hrest hready.loader]
      dsimp only
      rw [through?_drive (advances_start name ps []) rfl hps hready'.loading hfirst]
      exact hthrough
    · obtain ⟨hpauses, hloading, hexecute⟩ := execute_other st hrest hline
      have hleft : (p.execute st).2.2.rest = rest := by
        rw [Program.rest_execute, hrest, List.tail_cons]
      have hready' : (p.execute st).2.2.Ready ((p.execute st).2.1.answered serve st world).2.2.1 :=
        ⟨(loader_answered ..).trans hready.loader, hloading.trans hready.loading, fun i hi =>
          hready.full i (hrest ▸ List.mem_cons_of_mem _ (hleft ▸ hi))⟩
      rw [run_eq (p := p.smooth) (by simp [Program.smooth, hrest]), hexecute] at hcount ⊢
      rw [run_eq (by simp [hrest])]
      dsimp only at hcount ⊢
      rw [atOnce_answered] at hcount ⊢
      rw [pausesOf_executed (hleft ▸ hrest), hpauses, Nat.zero_add] at hcount
      exact comesTo_ofTurn hready' (ih hready' hleft) fillers hcount

/-- A program that is resumed outside of loads. -/
theorem enter_waiting (hloading : p.loading = none) (args : List Value) : ∃ log q,
    p.enter args = (log, .next, q) ∧ p.smooth.enter args = (log, .next, q.smooth) ∧
      q.rest = p.rest ∧ q.loading = none := by
  have hloading' : p.smooth.loading = none := hloading
  unfold Program.enter
  rw [hloading, hloading']
  dsimp only
  rw [show p.smooth.awaitingEvent = p.awaitingEvent from rfl]
  split
  · exact ⟨_, _, rfl, by rw [Program.smooth]; rfl, rfl, rfl⟩
  · exact ⟨_, _, rfl, rfl, rfl, hloading⟩

/-- A program that is resumed outside of loads, up to its next suspension there. -/
theorem comesTo_goOn (hready : p.Ready st) (args : List Value) : Run.ComesTo serve p
    (st.goOn serve p args world) (st.atOnce.goOn serve p.smooth args world) := by
  intro fillers hcount
  obtain ⟨log, q, henter, henter', hrest, hloading⟩ := enter_waiting hready.loading args
  have hready' : q.Ready st := ⟨hready.loader, hloading, hrest ▸ hready.full⟩
  have hexecuted (run : Run ω) : run.executed p = run.executed q := by
    rw [Run.executed, Run.executed, hrest]
  rw [goOn_eq, henter', hexecuted, ← hrest] at hcount
  rw [goOn_eq, goOn_eq, henter, henter']
  exact comesTo_ofTurn hready' (comesTo_run hready') fillers hcount

end

end ComputerHost.Script

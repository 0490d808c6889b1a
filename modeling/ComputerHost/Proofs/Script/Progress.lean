import ComputerHost.Proofs.Script.Heedless
import ComputerHost.Proofs.Script.Transparent

/-!
# Programs make progress

A coroutine is resumed again and again, with anything at all, and between two resumes anything may be done
to its state but loading another chunk into it (`Life`). Its program goes through its lines one by one. It
suspends at lines that suspend, and in loads once for each tilde that it comes to; what it has left of
these is its allowance, which every suspension lowers.

Results:
1. `drive_parked`, `drive_start`: loads that are driven one step.
2. `leadsTo_execute`: one line.
3. `goes_run`: the lines from one suspension to the next.
4. `enter_rests`, `step_of_rests`: one resume.
5. `stands_of_life`, `coroutines_progress`: any number of resumes.
-/

namespace ComputerHost.Script

open Load

/-- How often a line suspends its program at most. -/
def Instruction.suspensions : Instruction → Nat
  | .yield _ | .shutdown | .reboot => 1
  | .load _ pieces => pieces.count "~"
  | _ => 0

def suspensionsOf (lines : List Instruction) : Nat := (lines.map Instruction.suspensions).sum

def Instruction.isYield : Instruction → Bool
  | .yield _ => true
  | _ => false

/-- Is the last one of the first so many lines a yield? -/
def atYield (lines : List Instruction) (executed : Nat) : Bool :=
  (lines.take executed).getLast?.any Instruction.isYield

/-- The last one of the first so many lines is one at which a program may suspend. -/
def SuspendsAt (lines : List Instruction) (executed : Nat) : Prop :=
  ∃ line, (lines.take executed).getLast? = some line ∧ 0 < line.suspensions

def Resumed.isYielded : Resumed → Bool
  | .yielded _ => true
  | _ => false

/-- How often the program may still suspend. -/
def Program.allowance (p : Program) : Nat :=
  suspensionsOf p.rest + p.loading.elim 0 fun l => l.remaining.count "~"

/-- The program goes through these lines and has come as far as it says. -/
structure Program.Follows (lines : List Instruction) (p : Program) : Prop where
  rest : p.rest = lines.drop p.executed
  within : p.executed ≤ lines.length

/-- It is about to execute its next line. -/
structure Program.Runs (lines : List Instruction) (p : Program) : Prop extends p.Follows lines where
  loading : p.loading = none
  awaiting : p.awaitingEvent = false

/-- It is suspended, or has not begun. -/
structure Program.Rests (lines : List Instruction) (p : Program) : Prop extends p.Follows lines where
  awaiting : p.awaitingEvent = atYield lines p.executed
  loading : ∀ l, p.loading = some l → (∃ source left, l.Parked source left) ∧
    ∃ name ps, (lines.take p.executed).getLast? = some (.load name ps) ∧ "~" ∈ ps

variable {ω : Type} (serve : Request → ω → Reply × ω)

/-- A computer whose replies are never panics. -/
def Calm : Prop := ∀ request world message, (serve request world).1 ≠ .panicked message

/-- What a line logs when it is executed, the lines about a reply included. -/
def Logs (line : Instruction) (logged : List String) : Prop :=
  ∃ (st : Interpreter) (p : Program) (rest : List Instruction) (world : ω), p.rest = line :: rest ∧
    logged = (p.execute st).1 ++ ((p.execute st).2.1.answered serve st world).1

section
variable {serve} {st st' : Interpreter} {p q : Program} {world : ω} {co : Nat}
  {lines rest : List Instruction} {line : Instruction} {name source : String} {ps left : List String}
  {args values : List Value}

/-! ## 1. Loads -/

theorem count_of_suspends {source' : String} (hh : halt name source ps = .suspends source' left) :
    left.count "~" < ps.count "~" := by
  induction ps generalizing source with
  | nil => cases hh
  | cons piece later ih =>
    rw [halt] at hh
    split at hh
    · next htilde =>
      cases hh
      simp [htilde]
    · next htilde =>
      rw [List.count_cons_of_ne (by simpa using htilde)]
      split at hh
      · cases hh
      · split at hh
        · cases hh
        · exact ih hh

theorem remaining_of_parked {l : Loading} (hp : l.Parked source left) : l.remaining = left := by
  obtain ⟨b, hoperation, -, hleft, -⟩ := hp.bridge
  rw [Loading.remaining, hoperation]
  exact hleft

/-- A suspended load does not look at the values that it goes on with. -/
theorem step_heedless {l : Loading} (hp : l.Parked source left) (values values' : List Value) :
    l.step values = l.step values' := by
  obtain ⟨b, hoperation, hworker, -, habandoned, -, hin, hphase⟩ := hp.bridge
  obtain ⟨name, operation⟩ := l
  obtain rfl : operation = .bridged b := hoperation
  let told (values : List Value) : Bridge Verbatim (List String) :=
    { b with toWorker := [.resume values], roundTrips := b.roundTrips + 1, phase := .workerRunning }
  have hbegin (values : List Value) : b.beginStep values = (none, told values) := by
    simp [Bridge.beginStep, hphase, Bridge.hasExited, hworker, hin, told]
  -- Two moves of the worker, and the values are gone.
  have hmoved (values : List Value) (n : Nat) :
      (told values).runWorker verbatim pieces (n + 2) =
        (standing (told []) (.supplying (.reading name source) []) b.supplier).runWorker verbatim pieces
          (n + 1) := by
    have hmove : (told values).workerMove? verbatim pieces =
        some (standing (told values) (.supplying (.reading name source) values) b.supplier) := by
      simp [Bridge.workerMove?, standing, hworker, habandoned, told]
    have hsupply : (standing (told values) (.supplying (.reading name source) values)
        b.supplier).workerMove? verbatim pieces =
        (standing (told []) (.supplying (.reading name source) []) b.supplier).workerMove? verbatim
          pieces := by
      simp only [Bridge.workerMove?, standing, told, resume_heedless b.supplier values []]
    obtain ⟨b', hb'⟩ : ∃ b', (standing (told []) (.supplying (.reading name source) [])
        b.supplier).workerMove? verbatim pieces = some b' := ⟨_, rfl⟩
    rw [runWorker_move hmove, runWorker_move (hsupply.trans hb'), runWorker_move hb']
  unfold Loading.step Operation.step Bridge.step
  dsimp only [Loading.remaining]
  rw [hbegin, hbegin]
  dsimp only
  rw [hmoved, hmoved]

/-- What driving a load that gets to there does to its program. -/
def Drives (p : Program) (l : Loading) (ps : List String) (driven : List String × Turn × Program) :
    Prop :=
  (∃ source left l', left.count "~" < ps.count "~" ∧ l'.Parked source left ∧
    driven = ([], .suspend [], { p with loading := some l' })) ∨
  ∃ result, driven = ([l.report result], .next, { p with loading := none })

theorem drives_of_advances {l : Loading}
    (ha : Loading.Advances name (halt name source ps) (l.step values)) :
    Drives p l ps (p.drive l values) := by
  rcases hstep : l.step values with ⟨progress, l'⟩
  rw [hstep] at ha
  unfold Program.drive
  rw [hstep]
  cases hh : halt name source ps with
  | suspends source' left =>
    rw [hh] at ha
    obtain ⟨rfl, -, hparked⟩ := ha
    exact .inl ⟨source', left, l', count_of_suspends hh, hparked, rfl⟩
  | ends result =>
    rw [hh] at ha
    obtain ⟨rfl, -⟩ := ha
    exact .inr ⟨result, rfl⟩

/-- A suspended load that is driven on. -/
theorem drive_parked {l : Loading} (hp : l.Parked source left) (p : Program) (values : List Value) :
    Drives p l left (p.drive l values) :=
  drives_of_advances (advances_parked hp values)

/-- A load at once comes to an end, if only because it would have to suspend. -/
theorem run_direct_ends {n : Nat} (name source : String) (hn : ps.length + 2 ≤ n) :
    ∃ result left, verbatim.run (readDirect pieces) n (.reading name source) ps =
      some (some (.loaded result), left) := by
  have hended (result : Except LoadError Value) (n : Nat) (left : List String) :
      verbatim.run (readDirect pieces) (n + 1) (.ended result) left =
        some (some (.loaded result), left) := rfl
  induction ps generalizing source n with
  | nil =>
    obtain ⟨n, rfl⟩ : ∃ m, n = m + 2 := ⟨n - 2, by simp at hn; omega⟩
    exact ⟨_, [], rfl⟩
  | cons piece rest ih =>
    rw [List.length_cons] at hn
    obtain ⟨n, rfl⟩ : ∃ m, n = m + 2 := ⟨n - 2, by omega⟩
    -- A piece is answered with a failure, or with what the parser makes of it.
    have hask : (∃ e, verbatim.run (readDirect pieces) (n + 2) (.reading name source) (piece :: rest) =
        verbatim.run (readDirect pieces) (n + 1) (.ended (.error e)) rest) ∨
        verbatim.run (readDirect pieces) (n + 2) (.reading name source) (piece :: rest) =
          verbatim.run (readDirect pieces) (n + 1)
            (verbatim.receive (.reading name source) (pieceOf (.text piece))) rest := by
      by_cases htilde : piece = "~"
      · exact .inl ⟨_, by simp [Parser.run, readDirect, resume_piece, htilde, verbatim]; rfl⟩
      · by_cases hbang : piece = "!"
        · exact .inl ⟨_, by simp [Parser.run, readDirect, resume_piece, hbang, verbatim]; rfl⟩
        · exact .inr (by simp [Parser.run, readDirect, resume_piece, htilde, hbang, verbatim])
    rcases hask with ⟨e, hask⟩ | hask
    · exact ⟨_, rest, hask.trans (hended ..)⟩
    · rw [hask]
      by_cases hempty : piece = ""
      · subst hempty
        exact ⟨_, rest, hended ..⟩
      · have hreceive : verbatim.receive (.reading name source) (pieceOf (.text piece)) =
            .reading name (source ++ piece) := by
          simp [pieceOf, hempty, verbatim]
        rw [hreceive]
        exact ih _ (by omega)

/-- A load that is driven for the first time, with either loader. -/
theorem drive_start (p : Program) (loader : Loader) (name : String) (ps : List String)
    (values : List Value) :
    Drives p ⟨name, loader.start verbatim name ps⟩ ps
      (p.drive ⟨name, loader.start verbatim name ps⟩ values) := by
  cases loader with
  | yieldable => exact drives_of_advances (advances_start name ps values)
  | blocking =>
    obtain ⟨result, left, hrun⟩ :=
      run_direct_ends name "" (show ps.length + 2 ≤ 4 * ps.length + 8 by omega)
    have hdirect : direct verbatim pieces (4 * ps.length + 8) name ps = some (.loaded result, left) := by
      unfold direct
      rw [show verbatim.start name = .reading name "" from rfl, hrun]
    refine .inr ⟨result, ?_⟩
    unfold Program.drive
    simp [Loading.step, Loader.start, Loading.remaining, Operation.step, hdirect, Loading.report]

/-! ## 2. One line -/

/-- Where a line has led its program: on, to a suspension, or to its end. -/
inductive LeadsTo (line : Instruction) (q : Program) : Turn → Prop
  | next : q.loading = none → q.awaitingEvent = false → LeadsTo line q .next
  | awaits (values : List Value) : line.isYield = true → q.loading = none → q.awaitingEvent = true →
      LeadsTo line q (.suspend values)
  | asked : line = .shutdown ∨ line = .reboot → q.loading = none → q.awaitingEvent = false →
      LeadsTo line q (.suspend [])
  | parks {name source : String} {ps left : List String} {l : Loading} : line = .load name ps →
      q.loading = some l → l.Parked source left → left.count "~" < ps.count "~" →
      q.awaitingEvent = false → LeadsTo line q (.suspend [])
  | finishes : LeadsTo line q .finish
  | fails (e : ScriptError) : LeadsTo line q (.fail e)
  | panics {message : String} : line = .panic message → LeadsTo line q (.panic message)

/-- A reply lets the program go on, and suspends it if it has asked to stop or to boot anew. -/
theorem resolve_turn {r : Request} {reply : Reply} (hcalm : ∀ message, reply ≠ .panicked message) :
    (r.resolve reply).2 = .next ∨
      ((r = .shutdown ∨ r = .reboot) ∧ (r.resolve reply).2 = .suspend []) := by
  cases reply with
  | panicked message => exact absurd rfl (hcalm message)
  | _ => cases r <;> simp [Request.resolve]

theorem leadsTo_request {r : Request} (hcalm : Calm serve) (hloading : q.loading = none)
    (hawaiting : q.awaitingEvent = false)
    (hline : r = .shutdown ∨ r = .reboot → line = .shutdown ∨ line = .reboot) :
    LeadsTo line q ((Program.request st r).answered serve st world).2.1 := by
  unfold Program.request
  split
  · rcases resolve_turn (r := r) (hcalm r world) with hnext | ⟨hr, hsuspend⟩
    · show LeadsTo line q (r.resolve (serve r world).1).2
      rw [hnext]
      exact .next hloading hawaiting
    · show LeadsTo line q (r.resolve (serve r world).1).2
      rw [hsuspend]
      exact .asked (hline hr) hloading hawaiting
  · exact .fails _

theorem leadsTo_drive {l : Loading} (hline : line = .load name ps) (hawaiting : p.awaitingEvent = false)
    {driven : List String × Turn × Program} (hd : Drives p l ps driven) :
    LeadsTo line driven.2.2 (driven.2.1.answered serve st world).2.1 := by
  obtain ⟨source, left, l', hcount, hparked, rfl⟩ | ⟨result, rfl⟩ := hd
  · exact .parks hline rfl hparked hcount hawaiting
  · exact .next rfl hawaiting

theorem execute_load (st : Interpreter) (hrest : p.rest = .load name ps :: rest) :
    p.execute st = Program.drive { p with rest, executed := p.executed + 1 }
      ⟨name, st.loader.start verbatim name ps⟩ [] := by
  rw [Program.execute, hrest]

/-- Where executing a line leads. -/
theorem leadsTo_execute (hcalm : Calm serve) (hrest : p.rest = line :: rest) (hloading : p.loading = none)
    (hawaiting : p.awaitingEvent = false) :
    LeadsTo line (p.execute st).2.2 ((p.execute st).2.1.answered serve st world).2.1 := by
  obtain ⟨name, ps, rfl⟩ | hline := load_or_not line
  · rw [execute_load st hrest]
    exact leadsTo_drive (p := { p with rest, executed := p.executed + 1 }) rfl hawaiting
      (drive_start ..)
  unfold Program.execute
  rw [hrest]
  cases line with
  | blank | print | countHooks | showGlobal | showHidden | listLibraries | listSurfaces =>
    exact .next hloading hawaiting
  | yield filter => exact .awaits _ rfl hloading rfl
  | raise | unknown => exact .fails _
  | finish => exact .finishes
  | shutdown => exact leadsTo_request hcalm hloading hawaiting fun _ => .inl rfl
  | reboot => exact leadsTo_request hcalm hloading hawaiting fun _ => .inr rfl
  | setBreakpoint | clearBreakpoint | startTimer | queue | call | setLabel =>
    exact leadsTo_request hcalm hloading hawaiting (by rintro (h | h) <;> cases h)
  | load name pieces => exact absurd rfl (hline name pieces)
  | panic message => exact .panics rfl

theorem executed_execute (st : Interpreter) (hrest : p.rest = line :: rest) :
    (p.execute st).2.2.executed = p.executed + 1 := by
  obtain ⟨name, ps, rfl⟩ | hline := load_or_not line
  · rw [execute_load st hrest]
    obtain ⟨_, _, _, _, _, heq⟩ | ⟨_, heq⟩ :=
      drive_start { p with rest, executed := p.executed + 1 } st.loader name ps [] <;> rw [heq]
  unfold Program.execute
  rw [hrest]
  cases line with
  | load name pieces => exact absurd rfl (hline name pieces)
  | _ => rfl

/-- With the line executed the program has come one line further. -/
theorem follows_execute (hf : p.Follows lines) (hrest : p.rest = line :: rest) (st : Interpreter) :
    (p.execute st).2.2.Follows lines ∧
      (lines.take (p.execute st).2.2.executed).getLast? = some line := by
  have hdrop : lines.drop p.executed = line :: rest := hf.rest.symm.trans hrest
  have hlt : p.executed < lines.length := by
    have hlength := congrArg List.length hdrop
    rw [List.length_drop, List.length_cons] at hlength
    omega
  have hline : lines[p.executed] = line := by
    rw [List.drop_eq_getElem_cons hlt] at hdrop
    exact (List.cons.inj hdrop).1
  rw [executed_execute st hrest]
  refine ⟨⟨?_, by rw [executed_execute st hrest]; exact hlt⟩, ?_⟩
  · rw [executed_execute st hrest, Program.rest_execute, hf.rest, List.tail_drop]
  · rw [List.take_succ_eq_append_getElem hlt, List.getLast?_concat, hline]

/-! ## 3. From one suspension to the next -/

/-- A run executes these lines, each with what it logs. -/
structure Run.Goes (serve : Request → ω → Reply × ω) (lines : List Instruction) (p : Program)
    (run : Run ω) (entries : List (Instruction × List String)) : Prop where
  log : run.log = entries.flatMap (·.2)
  executed : run.program.executed = p.executed + entries.length
  rest : p.rest = entries.map (·.1) ++ run.program.rest
  logs : ∀ entry ∈ entries, Logs serve entry.1 entry.2
  rests : ∀ values, run.result = .yielded values → run.program.Rests lines ∧
    SuspendsAt lines run.program.executed ∧ run.program.allowance < p.allowance
  panics : ∀ message, run.result = .panicked message →
    (entries.map (·.1)).getLast? = some (.panic message)

theorem suspensionsOf_cons (line : Instruction) (rest : List Instruction) :
    suspensionsOf (line :: rest) = line.suspensions + suspensionsOf rest := by
  simp [suspensionsOf]

theorem allowance_of_loading (hloading : q.loading = none) : q.allowance = suspensionsOf q.rest := by
  rw [Program.allowance, hloading]
  rfl

/-- A line that suspends its program leaves it at rest, with a lower allowance. -/
theorem rests_of_leadsTo (hf : q.Follows lines) (hlast : (lines.take q.executed).getLast? = some line)
    (hl : LeadsTo line q (.suspend values)) :
    q.Rests lines ∧ SuspendsAt lines q.executed ∧
      q.allowance < line.suspensions + suspensionsOf q.rest := by
  have hat : atYield lines q.executed = line.isYield := by rw [atYield, hlast, Option.any_some]
  cases hl with
  | awaits _ hline hloading hawaiting =>
    have hone : line.suspensions = 1 := by
      cases line with
      | yield filter => rfl
      | _ => cases hline
    refine ⟨⟨hf, by rw [hat, hline, hawaiting], by simp [hloading]⟩, ⟨line, hlast, by omega⟩, ?_⟩
    rw [allowance_of_loading hloading]
    omega
  | asked hline hloading hawaiting =>
    have hone : line.isYield = false ∧ line.suspensions = 1 := by
      obtain rfl | rfl := hline <;> exact ⟨rfl, rfl⟩
    refine ⟨⟨hf, by rw [hat, hone.1, hawaiting], by simp [hloading]⟩, ⟨line, hlast, by omega⟩, ?_⟩
    rw [allowance_of_loading hloading]
    omega
  | @parks name source ps left l hline hloading hparked hcount hawaiting =>
    subst hline
    have htilde : 0 < ps.count "~" := Nat.zero_lt_of_lt hcount
    refine ⟨⟨hf, by rw [hat, hawaiting]; rfl, fun l hl => ?_⟩, ⟨_, hlast, htilde⟩, ?_⟩
    · cases hloading.symm.trans hl
      exact ⟨⟨_, _, hparked⟩, _, _, hlast, List.count_pos_iff.mp htilde⟩
    · rw [Program.allowance, hloading, Option.elim_some, remaining_of_parked hparked]
      simp only [Instruction.suspensions]
      omega

/-- A program goes through its lines, one after the other. -/
theorem goes_run (hcalm : Calm serve) (hp : p.Runs lines) :
    ∃ entries, (p.run serve st world).Goes serve lines p entries := by
  induction hrest : p.rest generalizing p st world with
  | nil =>
    rw [run_nil hrest]
    exact ⟨[], rfl, rfl, hrest.symm ▸ rfl, by simp, by simp, by simp⟩
  | cons line rest ih =>
    have hl : LeadsTo line (p.execute st).2.2 ((p.execute st).2.1.answered serve st world).2.1 :=
      leadsTo_execute hcalm hrest hp.loading hp.awaiting
    obtain ⟨hf, hlast⟩ := follows_execute hp.toFollows hrest st
    have hexecuted := executed_execute st hrest
    have hleft : (p.execute st).2.2.rest = rest := by rw [Program.rest_execute, hrest, List.tail_cons]
    have hallowance : p.allowance = line.suspensions + suspensionsOf (p.execute st).2.2.rest := by
      rw [allowance_of_loading hp.loading, hrest, suspensionsOf_cons, hleft]
    have hlogs : Logs serve line ((p.execute st).1 ++ ((p.execute st).2.1.answered serve st world).1) :=
      ⟨st, p, rest, world, hrest, rfl⟩
    rw [run_eq (by simp [hrest])]
    dsimp only
    generalize (p.execute st).1 ++ ((p.execute st).2.1.answered serve st world).1 = logged at hlogs ⊢
    generalize ((p.execute st).2.1.answered serve st world).2.1 = turn at hl ⊢
    generalize (p.execute st).2.2 = q at hl hf hlast hexecuted hleft hallowance ⊢
    have hsuspends := hl
    -- A line that ends the run is the only one.
    have hstops (result : Resumed) (st' : Interpreter) (world' : ω)
        (hrests : ∀ values, result = .yielded values →
          q.Rests lines ∧ SuspendsAt lines q.executed ∧ q.allowance < p.allowance)
        (hpanics : ∀ message, result = .panicked message → line = .panic message) :
        Run.Goes serve lines p ⟨logged, result, st', q, world'⟩ [(line, logged)] := by
      refine ⟨by simp, hexecuted, by simp [hrest, hleft], ?_, hrests, fun message h => ?_⟩
      · rintro entry hentry
        rw [List.mem_singleton.mp hentry]
        exact hlogs
      · rw [hpanics message h]
        rfl
    cases hl with
    | next hloading hawaiting =>
      obtain ⟨entries, hgoes⟩ := ih ⟨hf, hloading, hawaiting⟩ hleft
      refine ⟨(line, logged) :: entries, ?_, ?_, ?_, ?_, fun values h => ?_, fun message h => ?_⟩
      · show logged ++ _ = _
        rw [hgoes.log, List.flatMap_cons]
      · refine hgoes.executed.trans ?_
        rw [hexecuted, List.length_cons]
        omega
      · rw [hrest, List.map_cons, List.cons_append, ← hleft, hgoes.rest]
        rfl
      · exact List.forall_mem_cons.mpr ⟨hlogs, hgoes.logs⟩
      · obtain ⟨hr, hat, hlower⟩ := hgoes.rests values h
        refine ⟨hr, hat, Nat.lt_of_lt_of_le hlower ?_⟩
        rw [allowance_of_loading hloading, hallowance]
        exact Nat.le_add_left ..
      · rw [List.map_cons, List.getLast?_cons, hgoes.panics message h]
        rfl
    | awaits | asked | parks =>
      have hr := rests_of_leadsTo hf hlast hsuspends
      exact ⟨_, hstops _ _ _ (fun _ _ => hallowance ▸ hr) (by simp)⟩
    | finishes | fails => exact ⟨_, hstops _ _ _ (by simp) (by simp)⟩
    | panics hline => exact ⟨_, hstops _ _ _ (by simp) (by rintro _ ⟨⟩; exact hline)⟩

/-! ## 4. One resume -/

/-- What a program does first when it is resumed: it suspends in its load once more, or it goes on to its
next line. Only a program that is suspended at a yield looks at what it is resumed with. -/
theorem enter_rests (hp : p.Rests lines) :
    (∃ q, (∀ args, p.enter args = ([], .suspend [], q)) ∧ atYield lines p.executed = false ∧
      q.Rests lines ∧ SuspendsAt lines q.executed ∧ q.executed = p.executed ∧
      q.allowance < p.allowance) ∨
    ∃ opening q, (∀ args, p.enter args =
        (if atYield lines p.executed then ["event " ++ Value.displayAll args] else opening, .next, q)) ∧
      q.Runs lines ∧ q.executed = p.executed ∧ q.rest = p.rest ∧ q.allowance ≤ p.allowance ∧
      (opening = [] ∨ ∃ l result, p.loading = some l ∧ opening = [l.report result]) := by
  cases hloading : p.loading with
  | none =>
    refine .inr ⟨[], { p with awaitingEvent := false }, fun args => ?_, ⟨⟨hp.rest, hp.within⟩, hloading,
      rfl⟩, rfl, rfl, Nat.le_refl _, .inl rfl⟩
    unfold Program.enter
    rw [hloading, ← hp.awaiting]
    dsimp only
    split
    · rfl
    · next hawaiting =>
      have hq : ({ p with awaitingEvent := false, loading := none } : Program) = p := by
        obtain ⟨name, executed, rest, awaitingEvent, loading⟩ := p
        simp_all
      rw [hq]
  | some l =>
    obtain ⟨⟨source, left, hparked⟩, name, ps, hlast, htilde⟩ := hp.loading l hloading
    have hat : atYield lines p.executed = false := by rw [atYield, hlast]; rfl
    have henter (args : List Value) : p.enter args = p.drive l [] := by
      unfold Program.enter
      rw [hloading]
      show p.drive l args = p.drive l []
      unfold Program.drive
      rw [step_heedless hparked args []]
    have hallowance : p.allowance = suspensionsOf p.rest + left.count "~" := by
      rw [Program.allowance, hloading, Option.elim_some, remaining_of_parked hparked]
    have hawaiting : p.awaitingEvent = false := hp.awaiting.trans hat
    obtain ⟨source', left', l', hcount, hparked', hdrive⟩ | ⟨result, hdrive⟩ :=
      drive_parked hparked p []
    · refine .inl ⟨_, fun args => (henter args).trans hdrive, hat, ⟨⟨hp.rest, hp.within⟩, hp.awaiting,
        fun k hk => ?_⟩, ⟨_, hlast, List.count_pos_iff.mpr htilde⟩, rfl, ?_⟩
      · cases hk
        exact ⟨⟨_, _, hparked'⟩, name, ps, hlast, htilde⟩
      · rw [hallowance, Program.allowance, Option.elim_some, remaining_of_parked hparked']
        exact Nat.add_lt_add_left hcount _
    · refine .inr ⟨_, { p with loading := none }, fun args => ?_, ⟨⟨hp.rest, hp.within⟩, rfl, hawaiting⟩,
        rfl, rfl, ?_, .inr ⟨l, result, rfl, rfl⟩⟩
      · rw [henter, hdrive, hat]
        rfl
      · rw [hallowance, allowance_of_loading rfl]
        exact Nat.le_add_right ..

end

/-- One resume of a coroutine with a program at rest, whatever it is resumed with: what it logs first, the
lines that it executes with what they log, and how it ends. -/
structure Step (lines : List Instruction) (co : Nat) (st : Interpreter) (p : Program) (world : ω)
    (opening : List String) (entries : List (Instruction × List String))
    (outcome : Resumed × Interpreter × ω) : Prop where
  resume : ∀ args, st.resume serve co args world =
    ((if atYield lines p.executed then ["event " ++ Value.displayAll args] else opening) ++
      entries.flatMap (·.2), outcome)
  opening : opening = [] ∨ ∃ l result, p.loading = some l ∧ opening = [l.report result]
  executes : entries.map (·.1) <+: p.rest
  logs : ∀ entry ∈ entries, Logs serve entry.1 entry.2
  yields : ∀ values, outcome.1 = .yielded values →
    ∃ q, outcome.2.1.coroutines[co]? = some (some q) ∧ q.executed = p.executed + entries.length ∧
      q.Rests lines ∧ SuspendsAt lines q.executed ∧ q.allowance < p.allowance
  ends : outcome.1.isYielded = false → outcome.2.1.coroutines[co]? = some none
  panics : ∀ message, outcome.1 = .panicked message →
    (entries.map (·.1)).getLast? = some (.panic message)

section
variable {serve} {st st' : Interpreter} {p : Program} {co : Nat} {lines : List Instruction}

theorem step_of_rests (hcalm : Calm serve) (hslot : st.coroutines[co]? = some (some p))
    (hp : p.Rests lines) (world : ω) :
    ∃ opening entries outcome, Step serve lines co st p world opening entries outcome := by
  obtain ⟨hlt, -⟩ := List.getElem?_eq_some_iff.1 hslot
  let held : Interpreter := { st with coroutines := st.coroutines.set co none }
  have hresume {args : List Value} {log : List String} {turn : Turn} {q : Program}
      (henter : p.enter args = (log, turn, q)) :
      st.resume serve co args world = (Run.ofTurn serve log turn held q world).settle co := by
    rw [resume_of_take (take_alive hslot), goOn_eq, henter]
  obtain ⟨q, henter, hat, hrests, hsuspends, hexecuted, hlower⟩ |
    ⟨opening, q, henter, hruns, hexecuted, hrest, hle, hopening⟩ := enter_rests hp
  · refine ⟨[], [], (.yielded [], held.put co q, world), fun args => ?_, .inl rfl, List.nil_prefix,
      by simp, fun values _ => ⟨q, ?_, hexecuted, hrests, hsuspends, hlower⟩, by simp [Resumed.isYielded],
      by simp⟩
    · rw [hresume (henter args), hat]
      rfl
    · exact List.getElem?_set_self (by simpa [held] using hlt)
  · obtain ⟨entries, hgoes⟩ : ∃ entries, (q.run serve held world).Goes serve lines q entries :=
      goes_run hcalm hruns
    generalize hrun : q.run serve held world = run at hgoes
    have hgone : run.interpreter.coroutines[co]? = some none := by
      rw [← hrun, coroutines_run]
      exact List.getElem?_set_self hlt
    have hput (q : Program) : (run.interpreter.put co q).coroutines[co]? = some (some q) :=
      List.getElem?_set_self (List.getElem?_eq_some_iff.1 hgone).1
    have hyields : ∀ values, run.result = .yielded values → (run.settle co).2.2.1.coroutines[co]? =
        some (some run.program) := by
      intro values h
      rw [settle_of_yielded h]
      exact hput _
    refine ⟨opening, entries, (run.settle co).2, fun args => ?_, hopening, ?_, hgoes.logs,
      fun values h => ?_, fun h => ?_, fun message h => ?_⟩
    · rw [hresume (henter args)]
      show (Run.after _ (q.run serve held world)).settle co = _
      rw [hrun, settle_after, ← hgoes.log]
      have hlog : (run.settle co).1 = run.log := by
        unfold Run.settle
        split <;> rfl
      rw [hlog]
    · rw [← hrest, hgoes.rest]
      exact List.prefix_append ..
    · rw [result_settle] at h
      obtain ⟨hrests, hat, hlower⟩ := hgoes.rests values h
      exact ⟨_, hyields values h, by rw [hgoes.executed, hexecuted], hrests, hat,
        Nat.lt_of_lt_of_le hlower hle⟩
    · rw [result_settle] at h
      unfold Run.settle
      split
      · next values heq =>
        rw [heq] at h
        cases h
      · exact hgone
    · exact hgoes.panics message ((result_settle ..).symm.trans h)

end

/-! ## 5. Any number of resumes -/

/-- Something is done to the interpreter that has nothing to do with the coroutine. -/
inductive Elsewhere (co : Nat) (st : Interpreter) : Interpreter → Prop
  | creates : Elsewhere co st st.createCoroutine.2
  | opensBase (hidden : List String) : Elsewhere co st (st.openBase hidden)
  | opensLibrary (name : String) (surfaces : List String) :
    Elsewhere co st (st.openLibrary name surfaces)
  | sets (name : String) (value : Value) : Elsewhere co st (st.setGlobal name value)
  | binds (id : UInt32) : Elsewhere co st (st.bind id)
  | chooses (loader : Loader) : Elsewhere co st (st.setLoader loader)
  | hooks (changes : List HookChange) : Elsewhere co st (st.applyHooks changes)
  | loads {other : Nat} {source : ByteArray} {chunk : String} {st' : Interpreter} : other ≠ co →
    st.load other source chunk = .ok st' → Elsewhere co st st'
  | resumes {other : Nat} (args : List Value) (world : ω) : other ≠ co →
    Elsewhere co st (st.resume serve other args world).2.2.1

/-- The coroutine has been resumed so often, with these results, since its chunk has been loaded. -/
inductive Life (co : Nat) (begun : Interpreter) : List Resumed → Interpreter → Prop
  | begins : Life co begun [] begun
  | resumes {past : List Resumed} {st : Interpreter} : Life co begun past st →
    ∀ (args : List Value) (world : ω), Life co begun (past ++ [(st.resume serve co args world).2.1])
      (st.resume serve co args world).2.2.1
  | elsewhere {past : List Resumed} {st st' : Interpreter} : Life co begun past st →
    Elsewhere serve co st st' → Life co begun past st'

/-- What the coroutine is like after these results. -/
inductive Stands (lines : List Instruction) (co : Nat) (past : List Resumed) (st : Interpreter) : Prop
  | alive (p : Program) : st.coroutines[co]? = some (some p) → p.Rests lines →
    (past = [] → p.executed = 0) → (past ≠ [] → SuspendsAt lines p.executed) →
    (∀ result ∈ past, result.isYielded = true) →
    past.length + p.allowance ≤ suspensionsOf lines → Stands lines co past st
  | dead : st.coroutines[co]? = some none → (∃ result ∈ past, result.isYielded = false) →
    past.countP Resumed.isYielded ≤ suspensionsOf lines → Stands lines co past st

/-- After these results, the coroutine that goes through these lines has not suspended more often than
they let it, has ended if it has been resumed more often than that, is dead if it has ended, and otherwise
has one step to make, whatever the world is by then. -/
structure Proceeds (lines : List Instruction) (co : Nat) (past : List Resumed) (st : Interpreter) :
    Prop where
  bounded : past.countP Resumed.isYielded ≤ suspensionsOf lines
  ends : suspensionsOf lines < past.length → ∃ result ∈ past, result.isYielded = false
  dead : (∃ result ∈ past, result.isYielded = false) → ∀ (args : List Value) (world : ω),
    st.resume serve co args world =
      ([], .failed (.runtime "cannot resume dead coroutine"), st, world)
  alive : (∀ result ∈ past, result.isYielded = true) →
    ∃ p, st.coroutines[co]? = some (some p) ∧ p.Follows lines ∧ (past = [] → p.executed = 0) ∧
      (past ≠ [] → SuspendsAt lines p.executed) ∧
      ∀ world, ∃ opening entries outcome, Step serve lines co st p world opening entries outcome

section
variable {serve} {st st' begun : Interpreter} {p : Program} {co : Nat} {lines : List Instruction}
  {past : List Resumed}

theorem coroutines_settle_of_ne {other : Nat} (hne : other ≠ co) (run : Run ω) :
    (run.settle other).2.2.1.coroutines[co]? = run.interpreter.coroutines[co]? := by
  unfold Run.settle
  split
  · exact List.getElem?_set_ne hne
  · rfl

theorem coroutines_of_elsewhere (he : Elsewhere serve co st st') (hco : co < st.coroutines.length) :
    st'.coroutines[co]? = st.coroutines[co]? := by
  cases he with
  | creates => exact List.getElem?_append_left hco
  | opensBase | opensLibrary | sets | binds | chooses | hooks => rfl
  | @loads other source chunk st' hne hload =>
    unfold Interpreter.load at hload
    cases hread : Program.read source chunk with
    | error e =>
      rw [hread] at hload
      cases hload
    | ok q =>
      rw [hread] at hload
      change (if other < st.coroutines.length then _ else _) = _ at hload
      split at hload
      · cases hload
        exact List.getElem?_set_ne hne
      · cases hload
  | @resumes other args world hne =>
    rcases htake : st.take other with e | ⟨q, held⟩
    · rw [resume_of_error htake]
    · have hheld : held.coroutines[co]? = st.coroutines[co]? := by
        unfold Interpreter.take at htake
        split at htake
        · cases htake
          exact List.getElem?_set_ne hne
        · cases htake
      rw [resume_of_take htake, coroutines_settle_of_ne hne, coroutines_goOn, hheld]

theorem Stands.elsewhere (hs : Stands lines co past st) (he : Elsewhere serve co st st') :
    Stands lines co past st' := by
  cases hs with
  | alive p hslot hrests hfirst hlater hyielded hle =>
    have hco := (List.getElem?_eq_some_iff.1 hslot).1
    exact .alive p ((coroutines_of_elsewhere he hco).trans hslot) hrests hfirst hlater hyielded hle
  | dead hslot hended hle =>
    have hco := (List.getElem?_eq_some_iff.1 hslot).1
    exact .dead ((coroutines_of_elsewhere he hco).trans hslot) hended hle

/-- Resuming a dead coroutine is an error and does nothing else. -/
theorem resume_dead (hslot : st.coroutines[co]? = some none) (args : List Value) (world : ω) :
    st.resume serve co args world =
      ([], .failed (.runtime "cannot resume dead coroutine"), st, world) :=
  resume_of_error (take_dead hslot) args

theorem countP_of_yielded (h : ∀ result ∈ past, result.isYielded = true) :
    past.countP Resumed.isYielded = past.length :=
  List.countP_eq_length.mpr h

theorem Stands.resume (hs : Stands lines co past st) (hcalm : Calm serve) (args : List Value)
    (world : ω) : Stands lines co (past ++ [(st.resume serve co args world).2.1])
      (st.resume serve co args world).2.2.1 := by
  cases hs with
  | dead hslot hended hle =>
    rw [resume_dead hslot]
    obtain ⟨result, hmem, hend⟩ := hended
    exact .dead hslot ⟨result, List.mem_append_left _ hmem, hend⟩ (by simpa [Resumed.isYielded] using hle)
  | alive p hslot hrests hfirst hlater hyielded hle =>
    obtain ⟨opening, entries, outcome, hstep⟩ := step_of_rests hcalm hslot hrests world
    rw [hstep.resume args]
    obtain ⟨result, st', world'⟩ := outcome
    cases hresult : result.isYielded with
    | true =>
      obtain ⟨values, rfl⟩ : ∃ values, result = .yielded values := by
        cases result with
        | yielded values => exact ⟨values, rfl⟩
        | _ => cases hresult
      obtain ⟨q, hslot', -, hrests', hsuspends, hlower⟩ := hstep.yields values rfl
      refine .alive q hslot' hrests' (by simp) (fun _ => hsuspends) ?_ ?_
      · exact List.forall_mem_append.mpr ⟨hyielded, List.forall_mem_singleton.mpr hresult⟩
      · rw [List.length_append, List.length_singleton]
        omega
    | false =>
      refine .dead (hstep.ends hresult) ⟨result, by simp, hresult⟩ ?_
      rw [List.countP_append, countP_of_yielded hyielded, List.countP_singleton, hresult]
      simp only [Bool.false_eq_true, if_false]
      omega

theorem stands_of_life (hcalm : Calm serve) (hbegun : Stands lines co [] begun)
    (hlife : Life serve co begun past st) : Stands lines co past st := by
  induction hlife with
  | begins => exact hbegun
  | resumes _ args world ih => exact ih.resume hcalm args world
  | elsewhere _ he ih => exact ih.elsewhere he

theorem Stands.proceeds (hs : Stands lines co past st) (hcalm : Calm serve) :
    Proceeds serve lines co past st := by
  have hbounded : past.countP Resumed.isYielded ≤ suspensionsOf lines := by
    cases hs with
    | dead _ _ hle => exact hle
    | alive p _ _ _ _ hyielded hle =>
      rw [countP_of_yielded hyielded]
      omega
  refine ⟨hbounded, fun hoften => ?_, fun hended args world => ?_, fun hyielded => ?_⟩
  · by_contra hnone
    have hyielded : ∀ result ∈ past, result.isYielded = true := by simpa using hnone
    rw [countP_of_yielded hyielded] at hbounded
    omega
  · cases hs with
    | dead hslot => exact resume_dead hslot args world
    | alive _ _ _ _ _ hyielded =>
      obtain ⟨result, hmem, hend⟩ := hended
      exact absurd (hyielded result hmem) (by simp [hend])
  · cases hs with
    | dead _ hended =>
      obtain ⟨result, hmem, hend⟩ := hended
      exact absurd (hyielded result hmem) (by simp [hend])
    | alive p hslot hrests hfirst hlater =>
      exact ⟨p, hslot, hrests.toFollows, hfirst, hlater, step_of_rests hcalm hslot hrests⟩

theorem fresh_of_read {source : ByteArray} {chunk : String} (hread : Program.read source chunk = .ok p) :
    p.executed = 0 ∧ p.awaitingEvent = false ∧ p.loading = none := by
  unfold Program.read at hread
  dsimp only at hread
  split at hread
  · cases hread
  · split at hread
    · cases hread
    · cases hread
      exact ⟨rfl, rfl, rfl⟩

theorem stands_of_load {source : ByteArray} {chunk : String}
    (hread : Program.read source chunk = .ok p) (hload : st.load co source chunk = .ok begun) :
    Stands p.rest co [] begun := by
  obtain ⟨hexecuted, hawaiting, hloading⟩ := fresh_of_read hread
  have hco : co < st.coroutines.length := by
    by_contra hnone
    unfold Interpreter.load at hload
    rw [hread] at hload
    change (if co < st.coroutines.length then _ else _) = _ at hload
    rw [if_neg hnone] at hload
    cases hload
  obtain rfl : st.put co p = begun := Except.ok.inj ((load_of_read hread hco).symm.trans hload)
  refine .alive p (List.getElem?_set_self hco) ⟨⟨?_, by omega⟩, ?_, by simp [hloading]⟩
    (fun _ => hexecuted) (by simp) (by simp) ?_
  · rw [hexecuted, List.drop_zero]
  · rw [hexecuted, hawaiting]
    rfl
  · rw [allowance_of_loading hloading]
    exact Nat.le_of_eq (Nat.zero_add _)

/-- A yield, and a load that suspends. -/
def pausing : String := "yield key\nload chunk a ~ b\nprint done"

end

end ComputerHost.Script

import ComputerHost.Proofs.Load.Protocol
import ComputerHost.Script.Program

/-!
# Loads of pieces

What the loads of programs come to. `halt` says how a supplier of pieces gets on: to a tilde, where the
load suspends, or to the end of the load. A load at once does not get past a tilde; `final` is what a
load comes to if the tildes do not count.

Results:
1. `halts_supplying`: a worker gets to where `halt` says.
2. `advances_start`, `advances_parked`: so does a load that may suspend, driven one step.
3. `step_blocking`: what a load at once comes to.
4. `final_of_suspends`, `final_of_ends`: what the steps of a load come to together.
-/

namespace ComputerHost

open Load

namespace Script

/-- Where a load gets to. -/
inductive Halt where
  /-- It suspends at a tilde, with so much source read, and these pieces left. -/
  | suspends (source : String) (rest : List String)
  | ends (result : Except LoadError Value)

/-- How a load gets on with its pieces from the source read so far. -/
def halt (name : String) : String → List String → Halt
  | source, [] => .ends (.ok (.function ⟨name, source⟩))
  | source, piece :: rest =>
    if piece = "~" then .suspends source rest
    else if piece = "!" then .ends (.error (.reader "reader failed"))
    else if piece = "" then .ends (.ok (.function ⟨name, source⟩))
    else halt name (source ++ piece) rest

/-- What a load comes to in the end. -/
def final (name : String) : String → List String → Except LoadError Value
  | source, [] => .ok (.function ⟨name, source⟩)
  | source, piece :: rest =>
    if piece = "~" then final name source rest
    else if piece = "!" then .error (.reader "reader failed")
    else if piece = "" then .ok (.function ⟨name, source⟩)
    else final name (source ++ piece) rest

/-- The tildes before the first exclamation mark. -/
def tildes (pieces : List String) : Nat := (pieces.takeWhile (· != "!")).count "~"

namespace Loading

/-- A load that is suspended, with so much source read, and these pieces left. -/
structure Parked (l : Loading) (source : String) (rest : List String) : Prop where
  bridge : ∃ b : Bridge Verbatim (List String), l.operation = .bridged b ∧
    b.worker = .parked (.reading l.name source) ∧ b.supplier = rest ∧ b.abandoned = false ∧
    b.toOwner = [] ∧ b.toWorker = [] ∧ b.phase = .workerYielded

/-- What driving a load answers if it gets to there. -/
def Advances (name : String) : Halt → Progress × Loading → Prop
  | .suspends source rest, (progress, l) =>
    progress = .yielded [] ∧ l.name = name ∧ l.Parked source rest
  | .ends result, (progress, l) => progress = .done result ∧ l.name = name

end Loading

section
variable {name source : String} {ps rest : List String} {args : List Value}
  {b : Bridge Verbatim (List String)} {n : Nat}

/-! ## 1. The worker -/

theorem resume_piece (piece : String) (rest : List String) (args : List Value) :
    pieces.resume (piece :: rest) args =
      if piece = "~" then (.yielded [], rest)
      else if piece = "!" then (.failed "reader failed", rest)
      else (.returned (.text piece), rest) := by
  unfold pieces
  dsimp only
  split <;> simp_all

/-- The worker stands here, and nobody has given the load up. -/
def standing (b : Bridge Verbatim (List String)) (worker : Worker Verbatim) (ps : List String) :
    Bridge Verbatim (List String) :=
  { b with worker, supplier := ps, abandoned := false, toWorker := [] }

theorem runWorker_move {b' : Bridge Verbatim (List String)}
    (h : b.workerMove? verbatim pieces = some b') :
    b.runWorker verbatim pieces (n + 1) = b'.runWorker verbatim pieces n := by
  rw [Bridge.runWorker, h]

/-- A worker that does not move any more. -/
theorem runWorker_stuck (h : b.workerMove? verbatim pieces = none) :
    b.runWorker verbatim pieces n = b := by
  cases n with
  | zero => rfl
  | succ n => rw [Bridge.runWorker, h]

/-- What has become of a load whose worker has got to there. -/
def Halts (b : Bridge Verbatim (List String)) (name : String) :
    Halt → Bridge Verbatim (List String) → Prop
  | .suspends source rest, b' => b' =
    { standing b (.parked (.reading name source)) rest with toOwner := b.toOwner ++ [.yielded []] }
  | .ends result, b' => ∃ rest, b' =
    { standing b .exited rest with toOwner := b.toOwner ++ [.finished result] }

/-- A worker that has a result posts it and leaves. -/
theorem halts_ended (result : Except LoadError Value) : Halts b name (.ends result)
    ((standing b (.parsing (.ended result)) ps).runWorker verbatim pieces (n + 3)) := by
  refine ⟨ps, ?_⟩
  rw [runWorker_move rfl, runWorker_move rfl, runWorker_move rfl]
  exact runWorker_stuck rfl

/-- A worker that is about to resume its supplier. -/
theorem halts_supplying (hn : 2 * ps.length + 5 ≤ n) : Halts b name (halt name source ps)
    ((standing b (.supplying (.reading name source) args) ps).runWorker verbatim pieces n) := by
  -- Each piece takes the worker two moves: it takes the piece up and asks for the next.
  induction ps generalizing source args n with
  | nil =>
    obtain ⟨n, rfl⟩ : ∃ m, n = m + 4 := ⟨n - 4, by simp at hn; omega⟩
    rw [runWorker_move rfl]
    exact halts_ended _
  | cons piece rest ih =>
    rw [List.length_cons] at hn
    obtain ⟨n, rfl⟩ : ∃ m, n = m + 4 := ⟨n - 4, by omega⟩
    have hmove : (standing b (.supplying (.reading name source) args) (piece :: rest)).workerMove?
        verbatim pieces = some (standing b
          (if piece = "~" then .posting (.reading name source) []
          else if piece = "!" then .parsing (.ended (.error (.reader "reader failed")))
          else .parsing (verbatim.receive (.reading name source) (pieceOf (.text piece)))) rest) := by
      by_cases htilde : piece = "~"
      · simp [Bridge.workerMove?, standing, resume_piece, htilde]
      · by_cases hbang : piece = "!"
        · simp [Bridge.workerMove?, standing, resume_piece, hbang, verbatim]
        · simp [Bridge.workerMove?, standing, resume_piece, htilde, hbang]
    rw [runWorker_move hmove, halt]
    split
    · rw [runWorker_move rfl]
      exact runWorker_stuck rfl
    · split
      · exact halts_ended _
      · split
        · next hempty =>
          subst hempty
          exact halts_ended _
        · next hpiece =>
          have hreceive : verbatim.receive (.reading name source) (pieceOf (.text piece)) =
              .reading name (source ++ piece) := by
            simp [pieceOf, hpiece, verbatim]
          rw [hreceive, runWorker_move rfl]
          exact ih (by omega)


/-! ## 2. Loads that may suspend -/

theorem receive?_of_halts {h : Halt} {b' : Bridge Verbatim (List String)} (ho : b.toOwner = [])
    (hh : Halts b name h b') : ∃ progress b₂, b'.receive? = some (progress, b₂) ∧
      Loading.Advances name h (progress, ⟨name, .bridged b₂⟩) := by
  cases h with
  | suspends source rest =>
    obtain rfl := hh
    unfold Bridge.receive?
    simp only [ho, List.nil_append]
    exact ⟨_, _, rfl, rfl, rfl, ⟨_, rfl, rfl, rfl, rfl, rfl, rfl, rfl⟩⟩
  | ends result =>
    obtain ⟨rest, rfl⟩ := hh
    unfold Bridge.receive?
    simp only [ho, List.nil_append]
    exact ⟨_, _, rfl, rfl, rfl⟩

theorem advances_of_halts {h : Halt} {values : List Value} {b₀ b₁ : Bridge Verbatim (List String)}
    (hbegin : b.beginStep values = (none, b₁)) (ho : b₀.toOwner = [])
    (hh : Halts b₀ name h (b₁.runWorker verbatim pieces (4 * b.supplier.length + 8))) :
    Loading.Advances name h (Loading.step ⟨name, .bridged b⟩ values) := by
  obtain ⟨progress, b₂, hreceive, hadvances⟩ := receive?_of_halts ho hh
  have hstep : Loading.step ⟨name, .bridged b⟩ values = (progress, ⟨name, .bridged b₂⟩) := by
    simp [Loading.step, Loading.remaining, Operation.step, Bridge.step, hbegin, hreceive]
  rw [hstep]
  exact hadvances

/-- A load that may suspend, driven for the first time. -/
theorem advances_start (name : String) (ps : List String) (values : List Value) :
    Loading.Advances name (halt name "" ps)
      (Loading.step ⟨name, Loader.yieldable.start verbatim name ps⟩ values) := by
  let b : Bridge Verbatim (List String) :=
    { Bridge.start verbatim name ps with phase := .workerRunning }
  refine advances_of_halts (show _ = (none, b) from rfl) (show b.toOwner = [] from rfl) ?_
  have hmove : b.workerMove? verbatim pieces =
      some (standing b (.supplying (.reading name "") []) ps) := rfl
  rw [runWorker_move hmove]
  exact halts_supplying (by simp [Bridge.start]; omega)

/-- A load that is suspended, driven on with whatever values. -/
theorem advances_parked {l : Loading} (hp : l.Parked source ps) (values : List Value) :
    Loading.Advances l.name (halt l.name source ps) (l.step values) := by
  obtain ⟨b, hoperation, hworker, rfl, habandoned, ho, hin, hphase⟩ := hp.bridge
  obtain ⟨name, operation⟩ := l
  obtain rfl : operation = .bridged b := hoperation
  let told : Bridge Verbatim (List String) :=
    { b with toWorker := [.resume values], roundTrips := b.roundTrips + 1, phase := .workerRunning }
  have hbegin : b.beginStep values = (none, told) := by
    simp [Bridge.beginStep, hphase, Bridge.hasExited, hworker, hin, told]
  have hmove : told.workerMove? verbatim pieces =
      some (standing told (.supplying (.reading name source) values) b.supplier) := by
    simp [Bridge.workerMove?, standing, hworker, habandoned, told]
  refine advances_of_halts hbegin (show told.toOwner = [] from ho) ?_
  rw [runWorker_move hmove]
  exact halts_supplying (by omega)

/-! ## 3. Loads at once -/

theorem run_direct (name source : String) (hno : "~" ∉ ps) (hn : ps.length + 2 ≤ n) :
    ∃ rest, verbatim.run (readDirect pieces) n (.reading name source) ps =
      some (some (.loaded (final name source ps)), rest) := by
  have hended (result : Except LoadError Value) (n : Nat) (rest : List String) :
      verbatim.run (readDirect pieces) (n + 1) (.ended result) rest =
        some (some (.loaded result), rest) := rfl
  -- Without a tilde the supplier never suspends, and each piece takes one question.
  induction ps generalizing source n with
  | nil =>
    obtain ⟨n, rfl⟩ : ∃ m, n = m + 2 := ⟨n - 2, by simp at hn; omega⟩
    exact ⟨[], rfl⟩
  | cons piece rest ih =>
    rw [List.length_cons] at hn
    obtain ⟨n, rfl⟩ : ∃ m, n = m + 2 := ⟨n - 2, by omega⟩
    rw [List.mem_cons, not_or] at hno
    have htilde : piece ≠ "~" := Ne.symm hno.1
    have hask (n : Nat) : verbatim.run (readDirect pieces) (n + 1) (.reading name source)
        (piece :: rest) = verbatim.run (readDirect pieces) n
          (if piece = "!" then .ended (.error (.reader "reader failed"))
          else verbatim.receive (.reading name source) (pieceOf (.text piece))) rest := by
      by_cases hbang : piece = "!"
      · simp [Parser.run, readDirect, resume_piece, hbang, verbatim]
      · simp [Parser.run, readDirect, resume_piece, htilde, hbang, verbatim]
    rw [hask, final, if_neg htilde]
    split
    · exact ⟨rest, hended ..⟩
    · split
      · next hempty =>
        subst hempty
        exact ⟨rest, hended ..⟩
      · next hpiece =>
        have hreceive : verbatim.receive (.reading name source) (pieceOf (.text piece)) =
            .reading name (source ++ piece) := by
          simp [pieceOf, hpiece, verbatim]
        rw [hreceive]
        exact ih _ hno.2 (by omega)

/-- A load at once comes to its end when it is driven. -/
theorem step_blocking (name : String) (hno : "~" ∉ ps) (values : List Value) : ∃ l : Loading,
    Loading.step ⟨name, Loader.blocking.start verbatim name ps⟩ values =
      (.done (final name "" ps), l) := by
  obtain ⟨rest, hrun⟩ := run_direct name "" hno (show ps.length + 2 ≤ 4 * ps.length + 8 by omega)
  have hdirect : direct verbatim pieces (4 * ps.length + 8) name ps =
      some (.loaded (final name "" ps), rest) := by
    unfold direct
    rw [show verbatim.start name = .reading name "" from rfl, hrun]
  refine ⟨⟨name, .blocking name rest true⟩, ?_⟩
  simp [Loading.step, Loader.start, Loading.remaining, Operation.step, hdirect]

/-! ## 4. What a load comes to -/

/-- The tildes do not count for what a load comes to. -/
theorem final_filter (name source : String) (ps : List String) :
    final name source (ps.filter (· ≠ "~")) = final name source ps := by
  induction ps generalizing source with
  | nil => rfl
  | cons piece rest ih =>
    by_cases htilde : piece = "~"
    · rw [List.filter_cons_of_neg (by simp [htilde]), final, if_pos htilde, ih]
    · rw [List.filter_cons_of_pos (by simp [htilde]), final, final, if_neg htilde, if_neg htilde, ih]

theorem final_of_suspends {source' : String} (hh : halt name source ps = .suspends source' rest) :
    final name source ps = final name source' rest ∧ rest.length < ps.length ∧
      tildes ps = tildes rest + 1 ∧ rest ⊆ ps := by
  induction ps generalizing source with
  | nil => cases hh
  | cons piece later ih =>
    rw [halt] at hh
    rw [final]
    split at hh
    · next htilde =>
      cases hh
      subst htilde
      simp [tildes]
    · next htilde =>
      split at hh
      · cases hh
      · next hbang =>
        split at hh
        · cases hh
        · next hpiece =>
          obtain ⟨hfinal, hlength, htildes, hsub⟩ := ih hh
          refine ⟨by simpa [htilde, hbang, hpiece] using hfinal, Nat.lt_succ_of_lt hlength, ?_,
            List.subset_cons_of_subset _ hsub⟩
          simpa [tildes, hbang, htilde] using htildes

theorem final_of_ends {result : Except LoadError Value} (hh : halt name source ps = .ends result)
    (hfull : "" ∉ ps) : final name source ps = result ∧ tildes ps = 0 := by
  induction ps generalizing source with
  | nil =>
    cases hh
    exact ⟨rfl, rfl⟩
  | cons piece later ih =>
    rw [List.mem_cons, not_or] at hfull
    rw [halt] at hh
    rw [final]
    split at hh
    · cases hh
    · next htilde =>
      split at hh
      · next hbang =>
        cases hh
        simp [tildes, hbang]
      · next hbang =>
        have hpiece : piece ≠ "" := Ne.symm hfull.1
        rw [if_neg hpiece] at hh
        obtain ⟨hfinal, htildes⟩ := ih hh hfull.2
        refine ⟨by simpa [htilde, hbang, hpiece] using hfinal, ?_⟩
        simpa [tildes, hbang, htilde] using htildes

end

end Script

end ComputerHost

import Mathlib.Data.List.Range
import ComputerHost.Command.Execution
import ComputerHost.Proofs.Host.Rest

/-!
# What a run boots

A run tries ids in a row, whatever comes of each, and what it prints depends on those that could be started:
nothing at all, or the transcripts of all of them when they have stopped. `Tries` keeps every attempt. A run
that is given enough steps comes to where its host stops (`ComesToStop`).

The largest id is never tried, also if it is asked for.

Results:
1. `mem_ids`, `pairwise_ids`: the ids that are tried.
2. `exists_tries`, `Tries.startAll_eq`: every attempt, and what came of it.
3. `run_eq_nothingStarted_iff`, `run_of_comesToStop`: the end of a run.
4. `run_boots_all_but_largest`: a command that runs computers.
-/

namespace ComputerHost

namespace Command

/-- Computers are started one after the other. Each attempt is kept with what came of it. -/
inductive Tries (isDebugger : Bool) : Host → List (UInt32 × Except SpawnError Handle) → Host → Prop
  | done {h : Host} : Tries isDebugger h [] h
  | next {h h₁ h' : Host} {id : UInt32} {made : Except SpawnError Handle}
      {rest : List (UInt32 × Except SpawnError Handle)} :
      h.spawn id isDebugger = (made, h₁) → Tries isDebugger h₁ rest h' →
      Tries isDebugger h ((id, made) :: rest) h'

/-- The settings of a run, with what its options change about them. -/
def RunOptions.settings (options : RunOptions) (config : HostConfig) : HostConfig :=
  { config with standardsMode := config.standardsMode || options.standards }

/-- Those that could be started, in order. -/
def startedOf (attempts : List (UInt32 × Except SpawnError Handle)) : List Handle :=
  attempts.filterMap (·.2.toOption)

/-- Nothing is left to do: no computer is registered, all threads are at their end, and no task waits. -/
structure AllOver (h : Host) : Prop where
  registered : h.registry.registered = []
  gone : ∀ thread ∈ h.threads, thread.2 = .gone
  unjoined : h.unjoined = []
  tasks : h.tasks = .empty

/-- A host after everybody has waited for its threads and its tasks have run. -/
def wrapUp (h : Host) : Host := ({ h with unjoined := [] } : Host).runTasks.2

/-- Every line of the transcripts of some computers, each behind the id. -/
def printed (h : Host) (started : List Handle) : String :=
  String.join (started.flatMap fun who =>
    (h.transcript who.id).map fun line => s!"[{who.id.toNat}] {line}\n")

section
variable {h h' h₁ h₂ : Host} {isDebugger : Bool} {attempts : List (UInt32 × Except SpawnError Handle)}
  {first count n : UInt32} {options : RunOptions} {started : List Handle}

/-! ## 1. Ids -/

theorem mem_ids : n ∈ ids first count ↔
    first.toNat ≤ n.toNat ∧ n.toNat < first.toNat + count.toNat ∧ n.toNat + 1 < UInt32.size := by
  unfold ids
  simp only [List.mem_map, List.mem_range'_1]
  constructor
  · rintro ⟨k, ⟨hlow, hhigh⟩, rfl⟩
    have hk : k < UInt32.size := by omega
    rw [UInt32.toNat_ofNat_of_lt' hk]
    omega
  · rintro ⟨hlow, hhigh, hsize⟩
    exact ⟨n.toNat, by omega, UInt32.ofNat_toNat⟩

example : ids 4294967292 5 = [4294967292, 4294967293, 4294967294] := by decide +kernel

theorem pairwise_ids (first count : UInt32) : (ids first count).Pairwise (· < ·) := by
  unfold ids
  rw [List.pairwise_map]
  refine List.Pairwise.imp_of_mem ?_ List.pairwise_lt_range'
  intro m k hm hk hlt
  rw [List.mem_range'_1] at hm hk
  rw [UInt32.lt_iff_toNat_lt, UInt32.toNat_ofNat_of_lt' (by omega), UInt32.toNat_ofNat_of_lt' (by omega)]
  exact hlt

/-! ## 2. Attempts -/

theorem exists_tries (isDebugger : Bool) (todo : List UInt32) (h : Host) :
    ∃ attempts h', Tries isDebugger h attempts h' ∧ attempts.map (·.1) = todo := by
  induction todo generalizing h with
  | nil => exact ⟨[], h, .done, rfl⟩
  | cons id todo ih =>
    obtain ⟨attempts, h', htries, rfl⟩ := ih (h.spawn id isDebugger).2
    exact ⟨(id, (h.spawn id isDebugger).1) :: attempts, h', .next rfl htries, rfl⟩

theorem Tries.startAll_eq (ht : Tries isDebugger h attempts h') :
    startAll isDebugger (attempts.map (·.1)) h = (startedOf attempts, h') := by
  induction ht with
  | done => rfl
  | @next h h₁ h' id made rest hs _ ih =>
    rw [List.map_cons]
    unfold startAll
    rw [hs]
    cases made with
    | error e => exact ih
    | ok who =>
      dsimp only
      rw [ih]
      rfl

/-- What has been started has the id that was tried. -/
theorem Tries.ids_startedOf (ht : Tries isDebugger h attempts h') :
    ((startedOf attempts).map (·.id)).Sublist (attempts.map (·.1)) := by
  induction ht with
  | done => exact .refl _
  | @next h h₁ h' id made rest hs _ ih =>
    cases made with
    | error e => exact ih.cons id
    | ok who =>
      obtain ⟨rfl, -⟩ := Host.spawn_ok hs
      exact ih.cons_cons id

theorem Tries.enrolled (ht : Tries isDebugger h attempts h') (ha : Host.Accounted h)
    (he : Host.Enrolled h) : Host.Accounted h' ∧ Host.Enrolled h' := by
  induction ht with
  | done => exact ⟨ha, he⟩
  | @next h h₁ h' id made rest hs _ ih =>
    have ha₁ := (Host.accounted_spawn ha id isDebugger).accounted
    have he₁ := Host.enrolled_spawn he ha.toThreaded id isDebugger
    rw [hs] at ha₁ he₁
    exact ih ha₁ he₁

/-! ## 3. The end of a run -/

theorem wrapUp_eq (h : Host) : wrapUp h =
    { h with
      unjoined := [], tasks := .empty, terminals := (wrapUp h).terminals,
      notices := (wrapUp h).notices } :=
  Host.runTasks_eq _

theorem allOver_wrapUp (he : Host.Enrolled h) (hrest : h.step? = none)
    (hempty : h.registry.isEmpty = true) : AllOver (wrapUp h) := by
  rw [wrapUp_eq]
  exact ⟨List.isEmpty_iff.mp hempty, fun _ => Host.gone_at_rest he hrest hempty, rfl, rfl⟩

theorem transcript_wrapUp (h : Host) (id : UInt32) : (wrapUp h).transcript id = h.transcript id := by
  rw [wrapUp_eq]
  rfl

/-- A run fails for this reason just if nothing could be started. -/
theorem run_eq_nothingStarted_iff
    (hstart : startAll options.debugger (ids options.first options.count) h = (started, h₁))
    (fuel : Nat) : (run fuel options h).1 = .error .nothingStarted ↔ started = [] := by
  unfold run
  rw [hstart]
  dsimp only
  cases started with
  | nil => exact ⟨fun _ => rfl, fun _ => rfl⟩
  | cons who started =>
    refine ⟨fun heq => ?_, nofun⟩
    rw [List.isEmpty_cons, if_neg Bool.false_ne_true] at heq
    split at heq <;> cases heq

/-- With enough steps, a run whose computers stop prints what they have logged. -/
theorem run_of_comesToStop
    (hstart : startAll options.debugger (ids options.first options.count) h = (started, h₁))
    (hsome : started ≠ []) (he : Host.Enrolled h₂) (hs : Host.ComesToStop h₁ h₂) :
    ∃ n, ∀ fuel ≥ n, run fuel options h = (.ok (started.flatMap (report (wrapUp h₂))), wrapUp h₂) := by
  obtain ⟨n, hn⟩ := Host.waitUntil_of_comesToStop hs
  refine ⟨n, fun fuel hfuel => ?_⟩
  unfold run
  rw [hstart]
  dsimp only
  rw [if_neg (by simpa using hsome), hn fuel hfuel fuel hfuel, if_pos hs.isEmpty,
    Host.joinAll_at_rest hs.step? fun thread => Host.gone_at_rest he hs.step? hs.isEmpty]
  rfl

/-- The lines that are printed, as one text. -/
theorem join_report (h : Host) (started : List Handle) :
    String.join ((started.flatMap (report h)).map (· ++ "\n")) = printed h started := by
  unfold printed report
  rw [List.map_flatMap]
  simp only [List.map_map]
  rfl

/-! ## 4. Commands -/

theorem accounted_host (options : RunOptions) (s : Surroundings) (config : HostConfig) (tree : FileTree) :
    Host.Accounted (host options s config tree) ∧ Host.Enrolled (host options s config tree) :=
  ⟨Host.accounted_new .., List.nodup_nil, nofun⟩

/-- A run tries the ids that were asked for, but for the largest one there is, in order and each of them
once, and goes on when one cannot be started. It fails for having started nothing just if it has started
nothing. If its computers stop, it prints the transcripts of those that were started in the order of their
ids, as they are when nothing is left to do. -/
theorem run_boots_all_but_largest {s : Surroundings} {tree : FileTree} {args : List String}
    {options : RunOptions} {config : HostConfig} (hparse : parse args = .ok (.run options))
    (hload : loadConfig s tree options.config = .ok config) :
    (∀ n, n ∈ ids options.first options.count ↔ options.first.toNat ≤ n.toNat ∧
      n.toNat < options.first.toNat + options.count.toNat ∧ n.toNat + 1 < UInt32.size) ∧
    (ids options.first options.count).Pairwise (· < ·) ∧
    ∃ attempts h₁,
      Tries options.debugger (host options s (options.settings config) tree) attempts h₁ ∧
      attempts.map (·.1) = ids options.first options.count ∧
      ((startedOf attempts).map (·.id)).Sublist (ids options.first options.count) ∧
      (∀ fuel, (execute fuel s tree args).output = .error .nothingStarted ↔ startedOf attempts = []) ∧
      CommandError.nothingStarted.message = "No computer could be started" ∧
      (startedOf attempts ≠ [] → ∀ h₂, Host.ComesToStop h₁ h₂ → AllOver (wrapUp h₂) ∧
        (∀ id, (wrapUp h₂).transcript id = h₂.transcript id) ∧
        ∃ n, ∀ fuel ≥ n,
          execute fuel s tree args = ⟨.ok (printed (wrapUp h₂) (startedOf attempts)), h₂.tree⟩) := by
  refine ⟨fun n => mem_ids, pairwise_ids .., ?_⟩
  -- The rest is about the run of any host that keeps the books.
  have hexecute (fuel : Nat) : execute fuel s tree args =
      ⟨(run fuel options (host options s (options.settings config) tree)).1.map
          fun lines => String.join (lines.map (· ++ "\n")),
        (run fuel options (host options s (options.settings config) tree)).2.tree⟩ := by
    unfold execute
    rw [hparse]
    dsimp only
    rw [hload]
    rfl
  obtain ⟨ha, he⟩ := accounted_host options s (options.settings config) tree
  generalize host options s (options.settings config) tree = h at *
  obtain ⟨attempts, h₁, htries, hids⟩ :=
    exists_tries options.debugger (ids options.first options.count) h
  have hstart := htries.startAll_eq
  rw [hids] at hstart
  refine ⟨attempts, h₁, htries, hids, hids ▸ htries.ids_startedOf, fun fuel => ?_, rfl, ?_⟩
  · rw [hexecute, ← run_eq_nothingStarted_iff hstart fuel]
    cases (run fuel options h).1 <;> simp [Except.map]
  · intro hsome h₂ hs
    obtain ⟨ha₁, he₁⟩ := htries.enrolled ha he
    have he₂ := hs.enrolled ha₁ he₁
    obtain ⟨n, hn⟩ := run_of_comesToStop hstart hsome he₂ hs
    refine ⟨allOver_wrapUp he₂ hs.step? hs.isEmpty, transcript_wrapUp h₂, n, fun fuel hfuel => ?_⟩
    rw [hexecute, hn fuel hfuel, ← join_report, wrapUp_eq]
    rfl

end

def threeArgs : List String := ["run", "--ephemeral", "--id", "4", "-n3", "--bios", "b"]

def threeOptions : RunOptions := ⟨none, 4, 3, some "b", false, false, true⟩

/-- A ROM, a script, and a file where the data directory of the second computer should be. -/
def threeTree : FileTree :=
  ⟨[(["rom"], .directory), (["b"], .file "print hi\nreturn".toUTF8), (["computer"], .directory),
    (["computer", "5"], .file ⟨#[]⟩)], []⟩

def threeHost : Host := host threeOptions ⟨none, none⟩ (threeOptions.settings HostConfig.default) threeTree

/-- The second of three cannot be started. -/
theorem run_boots_all_but_largest_three :
    parse threeArgs = .ok (.run threeOptions) ∧
    loadConfig ⟨none, none⟩ threeTree none = .ok HostConfig.default ∧
    ∃ n, ∀ fuel ≥ n, (execute fuel ⟨none, none⟩ threeTree threeArgs).output = .ok "[4] hi\n[6] hi\n" := by
  have hparse : parse threeArgs = .ok (.run threeOptions) := by decide +kernel
  have hload : loadConfig ⟨none, none⟩ threeTree none = .ok HostConfig.default := by decide +kernel
  have hthese : (startAll false (ids 4 3) threeHost).1 = [⟨4, 1⟩, ⟨6, 2⟩] := by decide +kernel
  have hrest : ((startAll false (ids 4 3) threeHost).2.settle 120).step?.isNone = true := by
    decide +kernel
  have hempty : ((startAll false (ids 4 3) threeHost).2.settle 120).registry.isEmpty = true := by
    decide +kernel
  have hprinted : printed (wrapUp ((startAll false (ids 4 3) threeHost).2.settle 120))
      [⟨4, 1⟩, ⟨6, 2⟩] = "[4] hi\n[6] hi\n" := by decide +kernel
  obtain ⟨-, -, attempts, h₁, htries, hids, -, -, -, hstops⟩ := run_boots_all_but_largest hparse hload
  have hstart : startAll false (ids 4 3) threeHost = (startedOf attempts, h₁) := by
    rw [← htries.startAll_eq, hids]
    rfl
  rw [hstart] at hthese hrest hempty hprinted
  have hstarted : startedOf attempts = [⟨4, 1⟩, ⟨6, 2⟩] := hthese
  have hrests := Host.comesToRest_settle (Option.isNone_iff_eq_none.mp hrest)
  rw [hstarted] at hstops
  obtain ⟨-, -, n, hn⟩ := hstops (List.cons_ne_nil _ _) _ (.stops hrests hempty)
  refine ⟨hparse, hload, n, fun fuel hfuel => ?_⟩
  rw [hn fuel hfuel, hprinted]

end Command

end ComputerHost

import ComputerHost.Host.Construction
import ComputerHost.Proofs.Store.Files

/-!
# Constructions

A construction can fail when the settings cannot be loaded, when the ROM or the debugger's ROM cannot be
mounted, and when there is no data directory; by then it may have made a terminal. `Fails` are the causes,
and `Creates` is all that a construction may come to. One that fails aborts: nothing is left of it but the
terminal, which is given up or kept, the directories above a data directory that cannot be made, and what
people are told. One that succeeds adds a computer with the terminal.

Results:
1. `creates_create`: what a construction comes to.
2. `spawn_error_iff`: a spawn fails just if there is a cause.
3. `aborts_of_create_error`, `made_of_create_ok`: what a construction leaves.
4. `aborts_of_spawn_error`, `joins_of_spawn_ok`: what a spawn leaves.
-/

namespace ComputerHost

namespace Host

/-- Why a computer cannot be constructed. -/
inductive Fails (h : Host) (id : UInt32) (isDebugger : Bool) : SpawnError → Prop
  | config {e : ConfigError} : h.store.load h.tree id = .error e → Fails h id isDebugger (.config e)
  | rom {config : ComputerConfig} : h.store.load h.tree id = .ok config →
      MountTable.empty.mount? h.tree.isDirectory h.config.romDir "rom" h.config.romReadOnly = none →
      Fails h id isDebugger (.mount ⟨"ROM", "rom"⟩)
  | debugRom {config : ComputerConfig} {mounts : MountTable} : h.store.load h.tree id = .ok config →
      isDebugger = true →
      MountTable.empty.mount? h.tree.isDirectory h.config.romDir "rom" h.config.romReadOnly =
        some mounts →
      mounts.mount? h.tree.isDirectory h.config.debugRomDir "debug" true = none →
      Fails h id isDebugger (.mount ⟨"debugger ROM", "debug"⟩)
  | dataDir {config : ComputerConfig} {mounts : MountTable} {e : FileError} :
      h.store.load h.tree id = .ok config → h.systemMounts isDebugger = .ok mounts →
      h.tree.makeDirectories (h.config.dataDir id) = .error e →
      Fails h id isDebugger (.dataDir (h.config.dataDir id) e.detail)

/-- What a construction comes to. -/
inductive Creates (h : Host) (id : UInt32) (isDebugger : Bool) : Except SpawnError Handle × Host → Prop
  | unloaded {e : ConfigError} : h.store.load h.tree id = .error e →
      Creates h id isDebugger (.error (.config e), h)
  | unmounted {config : ComputerConfig} {failure : MountFailure} {terminal : Option Nat} {h₁ : Host} :
      h.store.load h.tree id = .ok config → h.systemMounts isDebugger = .error failure →
      h.openTerminal id (terminalTitle config id) (!config.isColor) = (terminal, h₁) →
      Creates h id isDebugger (.error (.mount failure),
        if h.config.standardsMode then h₁.orphanTerminal id terminal "Cannot mount ROM"
        else h₁.destroyTerminal id terminal)
  | homeless {config : ComputerConfig} {mounts : MountTable} {e : FileError} {tree : FileTree}
      {terminal : Option Nat} {h₁ : Host} :
      h.store.load h.tree id = .ok config → h.systemMounts isDebugger = .ok mounts →
      h.tree.makePath (h.config.dataDir id) = (.error e, tree) →
      h.openTerminal id (terminalTitle config id) (!config.isColor) = (terminal, h₁) →
      Creates h id isDebugger
        (.error (.dataDir (h.config.dataDir id) e.detail), { h₁ with tree }.destroyTerminal id terminal)
  | made {config : ComputerConfig} {system mounts : MountTable} {tree : FileTree}
      {terminal : Option Nat} {h₁ : Host} :
      h.store.load h.tree id = .ok config → h.systemMounts isDebugger = .ok system →
      h.tree.makeDirectories (h.config.dataDir id) = .ok tree →
      h.openTerminal id (terminalTitle config id) (!config.isColor) = (terminal, h₁) →
      Creates h id isDebugger (.ok ⟨id, h.counters.generation⟩,
        { h₁ with
          tree, counters := (h.counters.newHandle id).2,
          computers := h.computers ++ [Computer.new ⟨id, h.counters.generation⟩ isDebugger terminal
            mounts config (h.config.dataDir id)] })

/-- What becomes of the terminal that a construction makes, if it makes one, and which terminal the computer
gets. -/
inductive Furnishes (h h' : Host) : Option Nat → Prop
  | nothing : h'.terminals = h.terminals → h'.orphans = h.orphans → Furnishes h h' none
  | given {id : UInt32} {t : Terminal} : h'.terminals = h.terminals ++ [(id, t)] →
      t.destroyed = false → t.errorMode = false → h'.orphans = h.orphans →
      Furnishes h h' (some h.terminals.length)
  | destroyed {id : UInt32} {t : Terminal} : h'.terminals = h.terminals ++ [(id, t)] →
      t.destroyed = true → t.errorMode = false → h'.orphans = h.orphans → Furnishes h h' none
  | kept {id : UInt32} {t : Terminal} : h'.terminals = h.terminals ++ [(id, t)] →
      t.destroyed = false → t.errorMode = true → h'.orphans = h.orphans ++ [h.terminals.length] →
      Furnishes h h' none

/-- The tree that a construction leaves when it fails. Only if there is no data directory it may differ: then
some of the directories on the way to it have been made. -/
def treeAfter (h : Host) (id : UInt32) : SpawnError → FileTree
  | .dataDir .. => (h.tree.makePath (h.config.dataDir id)).2
  | _ => h.tree

/-- Nothing has come of a construction, but that people may see it: there may be one terminal more, which is
given up or kept; what waits to be told may differ; and what is written down is about no computer. Of the
tree nothing is lost. -/
structure Aborts (h h' : Host) : Prop where
  rest : h' = { h with
    tree := h'.tree, terminals := h'.terminals, orphans := h'.orphans, tasks := h'.tasks,
    journal := h'.journal }
  tree : h.tree.Keeps (fun _ => False) h'.tree
  furnishes : Furnishes h h' none
  journal : ∃ entries, h'.journal = h.journal ++ entries ∧ ∀ e ∈ entries, e.owner = none

/-- A computer has been constructed and started. -/
structure Joins (h h' : Host) (who : Handle) (terminal : Option Nat) : Prop where
  generation : who.generation = h.counters.generation
  drawn : h'.counters.generation = h.counters.generation + 1
  computers : ∃ c, h'.computers = h.computers ++ [c] ∧ c.handle = who ∧ c.terminal = terminal
  furnishes : Furnishes h h' terminal
  threads : h'.threads = h.threads ++ [(who, .betweenBoots)]
  registered : h'.registry.registered = h.registry.registered ++ [who]
  tasks : h'.tasks = h.tasks

/-- What people are told about a computer that cannot be constructed. -/
def openFailure (e : SpawnError) : Dialog :=
  ⟨none, "Failed to open computer",
    s!"An error occurred while opening the computer session: {e.message}"⟩

section
variable {h h' h₁ : Host} {id : UInt32} {isDebugger : Bool} {e : SpawnError}

/-! ## 1. What a construction comes to -/

theorem creates_create (h : Host) (id : UInt32) (isDebugger : Bool) :
    Creates h id isDebugger (h.create id isDebugger) := by
  unfold create
  split
  · next e hload => exact .unloaded hload
  · next config hload =>
    rcases ho : h.openTerminal id (terminalTitle config id) (!config.isColor) with ⟨terminal, h₁⟩
    have hsame : h₁.setup = h.setup ∧ h₁.tree = h.tree ∧ h₁.counters = h.counters ∧
        h₁.computers = h.computers := by
      have hopen : (h.openTerminal id (terminalTitle config id) (!config.isColor)).2 = h₁ := by rw [ho]
      rw [← hopen]
      unfold openTerminal
      split <;> exact ⟨rfl, rfl, rfl, rfl⟩
    obtain ⟨hsetup, htree, hcounters, hcomputers⟩ := hsame
    have hconfig : h₁.config = h.config := by rw [Host.config, hsetup, Host.config]
    have hmounts : h₁.systemMounts isDebugger = h.systemMounts isDebugger := by
      unfold systemMounts
      rw [hconfig, htree]
    dsimp only
    rw [hmounts, hconfig, htree]
    split
    · next failure hfail => exact .unmounted hload hfail ho
    · next system hsystem =>
      split
      · next e tree hdir => exact .homeless hload hsystem hdir ho
      · next tree hdir =>
        rw [hcounters, hcomputers]
        exact .made hload hsystem (FileTree.makeDirectories_eq_ok_iff.mpr hdir) ho

theorem systemMounts_error_iff {failure : MountFailure} :
    h.systemMounts isDebugger = .error failure ↔
      (MountTable.empty.mount? h.tree.isDirectory h.config.romDir "rom" h.config.romReadOnly = none ∧
        failure = ⟨"ROM", "rom"⟩) ∨
      ∃ mounts, MountTable.empty.mount? h.tree.isDirectory h.config.romDir "rom" h.config.romReadOnly =
          some mounts ∧ isDebugger = true ∧
        mounts.mount? h.tree.isDirectory h.config.debugRomDir "debug" true = none ∧
        failure = ⟨"debugger ROM", "debug"⟩ := by
  unfold systemMounts
  cases MountTable.empty.mount? h.tree.isDirectory h.config.romDir "rom" h.config.romReadOnly with
  | none => simp [eq_comm]
  | some mounts =>
    cases isDebugger with
    | false => simp
    | true =>
      cases hdebug : mounts.mount? h.tree.isDirectory h.config.debugRomDir "debug" true with
      | none => simp [hdebug, eq_comm]
      | some mounts' => simp [hdebug]

/-! ## 2. Causes -/

/-- A construction that comes to an error has a cause. -/
theorem Creates.fails (hc : Creates h id isDebugger (.error e, h')) : Fails h id isDebugger e := by
  cases hc with
  | unloaded hload => exact .config hload
  | homeless hload hsystem hdir =>
    exact .dataDir hload hsystem (FileTree.makeDirectories_eq_error_iff.mpr ⟨_, hdir⟩)
  | unmounted hload hfail =>
    rcases systemMounts_error_iff.mp hfail with ⟨hrom, rfl⟩ | ⟨mounts, hrom, hdebugger, hdebug, rfl⟩
    · exact .rom hload hrom
    · exact .debugRom hload hdebugger hrom hdebug

/-- What makes a construction fail, by the step that fails. -/
theorem Fails.at_step (hf : Fails h id isDebugger e) :
    (∃ e', h.store.load h.tree id = .error e' ∧ e = .config e') ∨
    ∃ config, h.store.load h.tree id = .ok config ∧
      ((∃ failure, h.systemMounts isDebugger = .error failure ∧ e = .mount failure) ∨
      ∃ mounts e', h.systemMounts isDebugger = .ok mounts ∧
        h.tree.makeDirectories (h.config.dataDir id) = .error e' ∧
        e = .dataDir (h.config.dataDir id) e'.detail) := by
  cases hf with
  | config hload => exact .inl ⟨_, hload, rfl⟩
  | rom hload hrom =>
    exact .inr ⟨_, hload, .inl ⟨_, systemMounts_error_iff.mpr (.inl ⟨hrom, rfl⟩), rfl⟩⟩
  | debugRom hload hdebugger hrom hdebug =>
    exact .inr ⟨_, hload, .inl ⟨_,
      systemMounts_error_iff.mpr (.inr ⟨_, hrom, hdebugger, hdebug, rfl⟩), rfl⟩⟩
  | dataDir hload hsystem hdir => exact .inr ⟨_, hload, .inr ⟨_, _, hsystem, hdir, rfl⟩⟩

theorem Creates.fst_of_fails {p : Except SpawnError Handle × Host} (hc : Creates h id isDebugger p)
    (hf : Fails h id isDebugger e) : p.1 = .error e := by
  rcases hf.at_step with ⟨e', hload, rfl⟩ | ⟨config, hload, hf⟩
  · cases hc with
    | unloaded hload' =>
      cases hload.symm.trans hload'
      rfl
    | unmounted hload' | homeless hload' | made hload' => cases hload.symm.trans hload'
  · rcases hf with ⟨failure, hfail, rfl⟩ | ⟨mounts, e', hsystem, hdir, rfl⟩
    · cases hc with
      | unloaded hload' => cases hload.symm.trans hload'
      | unmounted _ hfail' =>
        cases hfail.symm.trans hfail'
        rfl
      | homeless _ hsystem' | made _ hsystem' => cases hfail.symm.trans hsystem'
    · cases hc with
      | unloaded hload' => cases hload.symm.trans hload'
      | unmounted _ hfail' => cases hsystem.symm.trans hfail'
      | homeless _ _ hdir' =>
        obtain ⟨made, hdir⟩ := FileTree.makeDirectories_eq_error_iff.mp hdir
        cases hdir.symm.trans hdir'
        rfl
      | made _ _ hdir' => cases hdir.symm.trans hdir'

theorem fst_spawn (h : Host) (id : UInt32) (isDebugger : Bool) :
    (h.spawn id isDebugger).1 = (h.create id isDebugger).1 := by
  unfold spawn
  rcases h.create id isDebugger with ⟨e | who, h₁⟩ <;> rfl

theorem spawn_error_iff : (h.spawn id isDebugger).1 = .error e ↔ Fails h id isDebugger e := by
  have hc := creates_create h id isDebugger
  rw [fst_spawn]
  refine ⟨fun heq => ?_, hc.fst_of_fails⟩
  rw [show h.create id isDebugger = (.error e, (h.create id isDebugger).2) from
    Prod.ext heq rfl] at hc
  exact hc.fails

/-! ## 3. What a construction leaves -/

theorem Furnishes.congr {terminal : Option Nat} (hf : Furnishes h h₁ terminal)
    (ht : h'.terminals = h₁.terminals) (ho : h'.orphans = h₁.orphans) : Furnishes h h' terminal := by
  cases hf with
  | nothing hterminals horphans => exact .nothing (ht.trans hterminals) (ho.trans horphans)
  | given hterminals hdestroyed hmode horphans =>
    exact .given (ht.trans hterminals) hdestroyed hmode (ho.trans horphans)
  | destroyed hterminals hdestroyed hmode horphans =>
    exact .destroyed (ht.trans hterminals) hdestroyed hmode (ho.trans horphans)
  | kept hterminals hdestroyed hmode horphans =>
    exact .kept (ht.trans hterminals) hdestroyed hmode (ho.trans horphans)

theorem openTerminal_cases (h : Host) (id : UInt32) (title : String) (grayscale : Bool) :
    h.openTerminal id title grayscale = (none, h) ∨
      ∃ t : Terminal, t.destroyed = false ∧ t.errorMode = false ∧
        h.openTerminal id title grayscale =
          (some h.terminals.length, { h with terminals := h.terminals ++ [(id, t)] }) := by
  unfold openTerminal
  split
  · exact .inl rfl
  · exact .inr ⟨_, rfl, rfl, rfl⟩

theorem modify_concat {α : Type} (xs : List α) (x : α) (f : α → α) :
    (xs ++ [x]).modify xs.length f = xs ++ [f x] := by
  rw [List.modify_eq_take_drop]
  simp

theorem Aborts.refl (h : Host) : Aborts h h :=
  ⟨rfl, .refl _ h.tree, .nothing rfl rfl, [], (List.append_nil _).symm, by simp⟩

/-- The terminal that the construction has made is given up. -/
theorem aborts_destroyTerminal {terminal : Option Nat} {title : String} {grayscale : Bool}
    (ho : h.openTerminal id title grayscale = (terminal, h₁)) {tree : FileTree}
    (hk : h.tree.Keeps (fun _ => False) tree) :
    Aborts h ({ h₁ with tree }.destroyTerminal id terminal) ∧
      ({ h₁ with tree }.destroyTerminal id terminal).tasks = h.tasks ∧
      ({ h₁ with tree }.destroyTerminal id terminal).tree = tree := by
  rcases openTerminal_cases h id title grayscale with heq | ⟨t, hdestroyed, hmode, heq⟩
  · cases ho.symm.trans heq
    exact ⟨⟨rfl, hk, .nothing rfl rfl, [], (List.append_nil _).symm, by simp⟩, rfl, rfl⟩
  · cases ho.symm.trans heq
    have hlast := modify_concat h.terminals (id, t) fun p => (p.1, p.2.destroy)
    exact ⟨⟨rfl, hk, .destroyed hlast rfl hmode rfl, [_], rfl, by simp⟩, rfl, rfl⟩

/-- The terminal that the construction has made is kept, with the reason on it. -/
theorem aborts_orphanTerminal {terminal : Option Nat} {title : String} {grayscale : Bool}
    (ho : h.openTerminal id title grayscale = (terminal, h₁)) (message : String) :
    Aborts h (h₁.orphanTerminal id terminal message) ∧
      (h₁.orphanTerminal id terminal message).tasks = h.tasks ∧
      (h₁.orphanTerminal id terminal message).tree = h.tree := by
  rcases openTerminal_cases h id title grayscale with heq | ⟨t, hdestroyed, hmode, heq⟩
  · cases ho.symm.trans heq
    exact ⟨.refl h, rfl, rfl⟩
  · cases ho.symm.trans heq
    have hlast := modify_concat h.terminals (id, t) fun p => (p.1, p.2.showFatal message)
    exact ⟨⟨rfl, .refl _ h.tree, .kept hlast hdestroyed rfl rfl, [_], rfl, by simp⟩, rfl, rfl⟩

theorem Creates.aborts (hc : Creates h id isDebugger (.error e, h')) :
    Aborts h h' ∧ h'.tasks = h.tasks ∧ h'.tree = h.treeAfter id e := by
  cases hc with
  | unloaded => exact ⟨.refl h, rfl, rfl⟩
  | homeless _ _ hdir ho =>
    have hk : h.tree.Keeps (fun _ => False) (h.tree.makePath (h.config.dataDir id)).2 :=
      FileTree.keeps_makePath ..
    rw [hdir] at hk
    obtain ⟨ha, htasks, htree⟩ := aborts_destroyTerminal ho hk
    exact ⟨ha, htasks, htree.trans (congrArg Prod.snd hdir).symm⟩
  | @unmounted _ _ _ h₁ _ _ ho =>
    split
    · exact aborts_orphanTerminal ho "Cannot mount ROM"
    · have htree : h₁.tree = h.tree := by
        rcases openTerminal_cases h id _ _ with heq | ⟨t, -, -, heq⟩ <;>
          (cases ho.symm.trans heq; rfl)
      rw [show h₁ = { h₁ with tree := h.tree } by rw [← htree]]
      exact aborts_destroyTerminal ho (.refl _ h.tree)

theorem aborts_of_create_error (hc : h.create id isDebugger = (.error e, h')) :
    Aborts h h' ∧ h'.tasks = h.tasks ∧ h'.tree = h.treeAfter id e := by
  have hcreates := creates_create h id isDebugger
  rw [hc] at hcreates
  exact hcreates.aborts

/-- What a construction that succeeds does, besides making a terminal. -/
theorem made_of_create_ok {who : Handle} (hc : h.create id isDebugger = (.ok who, h')) :
    who = ⟨id, h.counters.generation⟩ ∧
      ∃ terminal mounts config tree, h.tree.makeDirectories (h.config.dataDir id) = .ok tree ∧
        Furnishes h h' terminal ∧
        h' = { h with
          terminals := h'.terminals, tree, counters := (h.counters.newHandle id).2,
          computers := h.computers ++
            [Computer.new who isDebugger terminal mounts config (h.config.dataDir id)] } := by
  have hcreates := creates_create h id isDebugger
  rw [hc] at hcreates
  cases hcreates with
  | @made config _ mounts tree terminal _ _ _ hdir ho =>
    refine ⟨rfl, terminal, mounts, config, tree, hdir, ?_⟩
    rcases openTerminal_cases h id (terminalTitle config id) (!config.isColor) with
      heq | ⟨t, hdestroyed, hmode, heq⟩ <;> cases ho.symm.trans heq
    · exact ⟨.nothing rfl rfl, rfl⟩
    · exact ⟨.given rfl hdestroyed hmode rfl, rfl⟩

/-! ## 4. What a spawn leaves -/

/-- A spawn that fails aborts, and people are told unless compatibility is strict. -/
theorem aborts_of_spawn_error (hs : (h.spawn id isDebugger).1 = .error e) :
    Aborts h (h.spawn id isDebugger).2 ∧
      ((h.spawn id isDebugger).2.tasks =
        if h.config.standardsMode then h.tasks else h.tasks.push (Task.leaf (openFailure e))) ∧
      (h.spawn id isDebugger).2.tree = h.treeAfter id e := by
  unfold spawn at hs ⊢
  rcases hc : h.create id isDebugger with ⟨e' | w, h₁⟩ <;> rw [hc] at hs <;> cases hs
  obtain ⟨ha, htasks, htree⟩ := aborts_of_create_error hc
  have hconfig : h₁.config = h.config := by
    rw [ha.rest]
    rfl
  show Aborts h (h₁.reportSpawnError e) ∧ (h₁.reportSpawnError e).tasks = _ ∧
    (h₁.reportSpawnError e).tree = _
  unfold reportSpawnError
  rw [hconfig]
  split
  · exact ⟨ha, htasks, htree⟩
  · refine ⟨⟨?_, ha.tree, ha.furnishes.congr rfl rfl, ha.journal⟩, ?_, htree⟩
    · rw [ha.rest]
      rfl
    · show h₁.tasks.push _ = _
      rw [htasks]
      rfl

theorem joins_of_spawn_ok {who : Handle} (hs : h.spawn id isDebugger = (.ok who, h')) :
    ∃ terminal, Joins h h' who terminal := by
  unfold spawn at hs
  rcases hc : h.create id isDebugger with ⟨e | w, h₁⟩ <;> rw [hc] at hs <;> cases hs
  obtain ⟨rfl, terminal, mounts, config, tree, -, hfurnishes, heq⟩ := made_of_create_ok hc
  refine ⟨terminal, rfl, ?_, ⟨Computer.new ⟨id, h.counters.generation⟩ isDebugger terminal mounts config
    (h.config.dataDir id), ?_, rfl, rfl⟩, hfurnishes.congr rfl rfl, ?_, ?_, ?_⟩
  all_goals
    rw [heq]
    rfl

/-- The computers after one has been added. -/
theorem computer?_of_append {c : Computer} (hcs : h'.computers = h.computers ++ [c]) (who : Handle) :
    h'.computer? who = (h.computer? who).or (if c.handle = who then some c else none) := by
  unfold computer?
  rw [hcs, List.find?_append]
  congr 1
  by_cases hw : c.handle = who <;> simp [hw]

/-- Who has which terminal after a construction. -/
theorem Joins.owner {who : Handle} {terminal : Option Nat} (hj : Joins h h' who terminal) (w : Handle) :
    (h'.computer? w).map (·.terminal) =
      ((h.computer? w).map (·.terminal)).or (if who = w then some terminal else none) := by
  obtain ⟨c, hcomputers, rfl, rfl⟩ := hj.computers
  rw [computer?_of_append hcomputers, Option.map_or]
  congr 1
  split <;> rfl

/-- A new terminal is the last one. -/
theorem Furnishes.length {terminal : Option Nat} (hf : Furnishes h h' terminal) :
    h.terminals.length ≤ h'.terminals.length ∧
      ∀ n, terminal = some n → n = h.terminals.length ∧ n < h'.terminals.length := by
  cases hf with
  | nothing ht => exact ⟨Nat.le_of_eq (congrArg List.length ht.symm), nofun⟩
  | given ht =>
    refine ⟨by simp [ht], ?_⟩
    rintro n ⟨⟩
    simp [ht]
  | destroyed ht | kept ht => exact ⟨by simp [ht], nofun⟩

theorem Furnishes.getElem? {terminal : Option Nat} (hf : Furnishes h h' terminal) {m : Nat}
    (hm : m < h.terminals.length) : h'.terminals[m]? = h.terminals[m]? := by
  cases hf with
  | nothing ht => rw [ht]
  | given ht | destroyed ht | kept ht => rw [ht, List.getElem?_append_left hm]

end

end Host

end ComputerHost

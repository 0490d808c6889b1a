import ComputerHost.Proofs.Host.Change
import ComputerHost.Proofs.Host.Wiring

/-!
# Spawns that fail

Little is left of a spawn that fails but what people see of it: if there is no data directory, directories
on the way to it may have been made, and they stay. A link that is turned on in vain answers with the error,
and stands for the same instance as before.

Directories that stay matter to the settings of computers only where a store looks for a file and finds
something through them, as in `failed_spawn_spoils_settings`.
-/

namespace ComputerHost

namespace Host

/-- There was nothing where a store keeps the settings of a computer, and now something is found there. -/
def Uncovers (h h' : Host) (other : UInt32) : Prop :=
  ∃ directory, h.store = .files directory ∧
    h.tree.holds (ConfigStore.path directory other) = false ∧
    h'.tree.holds (ConfigStore.path directory other) = true

/-- What is left of a spawn that fails: what people see of it, which is one terminal more, given up or kept,
and one message, or none under strict compatibility; and, for want of a data directory, those directories
on the way to it that could be made. -/
structure SpawnLeaves (h : Host) (id : UInt32) (e : SpawnError) (h' : Host) : Prop where
  aborts : Aborts h h'
  tasks : h'.tasks =
    if h.config.standardsMode then h.tasks else h.tasks.push (Task.leaf (openFailure e))
  tree : h'.tree = h.treeAfter id e
  /-- Everybody's settings are loaded as before, unless a directory was made where they are looked for. -/
  settings : ∀ other, h'.store.load h'.tree other = h.store.load h.tree other ∨
    (∃ path detail, e = .dataDir path detail) ∧ Uncovers h h' other

theorem spawnLeaves_of_fails {h : Host} {id : UInt32} {isDebugger : Bool} {e : SpawnError}
    (hf : Fails h id isDebugger e) : SpawnLeaves h id e (h.spawn id isDebugger).2 := by
  obtain ⟨ha, htasks, htree⟩ := aborts_of_spawn_error (spawn_error_iff.mpr hf)
  refine ⟨ha, htasks, htree, fun other => ?_⟩
  have hstore : (h.spawn id isDebugger).2.store = h.store := by rw [ha.rest]
  rw [hstore]
  cases e with
  | dataDir path detail =>
    exact (ConfigStore.load_of_grown h.store ha.tree other).imp_right fun hu => ⟨⟨path, detail, rfl⟩, hu⟩
  | _ =>
    rw [htree]
    exact .inl rfl

/-- A link to an instance that is gone. -/
def severed : Link := { target := ⟨2, 9⟩, hasHost := true, binding := none }

/-- A host with one computer and a link, and with a file where the data directory of another computer
should be. -/
def cramped : Host :=
  ((Host.new (HostSetup.standard .default)
    ⟨[(["rom"], .directory), (["computer"], .directory), (["computer", "2"], .file ⟨#[]⟩)], []⟩
    default).spawn 1 false).2.addPeripheral "link" (.link severed)

/-- A host that keeps settings in files. The path to the data directory of computer 7 leads through the place
where its settings are kept, and to a file. -/
def burrowed : Host :=
  Host.new
    (HostSetup.standard { HostConfig.default with customDataDirs := [⟨7, "config/7.json/../f"⟩] })
    ⟨[(["rom"], .directory), (["config"], .directory), (["config", "f"], .file ⟨#[]⟩)], []⟩
    (.files "config")

end Host

end ComputerHost

import ComputerHost.Command.Execution
import ComputerHost.Proofs.Table
import ComputerHost.Proofs.Toml.Documents
import ComputerHost.Proofs.Toml.Range

/-!
# Settings of a host as a document

The settings of a host are read from the text that is printed for them, if their idle times fit in signed
words: a document has no larger integers, so settings that were read once can be read again.

Results:
1. `document_entries`: the document of any settings.
2. `amend?_congr`, `amend?_entries`: reading, in whichever order the entries stand.
3. `ofText?_of_fits`, `fits_of_ofText?`, `printed_settings_read_back`: whole texts.
-/

namespace ComputerHost

open TomlTree

/-! ## 1. The document -/

/-- The entries of a record of the settings. -/
def CustomDataDir.entries (d : CustomDataDir) : List (String × TomlTree) :=
  [("id", .integer d.id.toNat), ("path", .string d.path)]

def CustomMount.entries (m : CustomMount) : List (String × TomlTree) :=
  [("mount_point", .string m.mountPoint), ("host_path", .string m.hostPath),
    ("policy", .string m.policy.name)]

theorem bare_of_keys {entries : List (String × TomlTree)}
    (h : ∀ name ∈ entries.map (·.1), isBare name = true) : ∀ entry ∈ entries, isBare entry.1 = true :=
  fun _ hentry => h _ (List.mem_map_of_mem hentry)

theorem record_dataDir (d : CustomDataDir) : Record d.entries where
  bare := bare_of_keys (by
    show ∀ name ∈ ["id", "path"], isBare name = true
    decide)
  plain := by
    have hid : d.id.toNat < Nat.pow 2 63 := Nat.lt_trans d.id.toNat_lt (by decide)
    simp only [CustomDataDir.entries, List.forall_mem_cons]
    exact ⟨.integer hid, .string _, by simp⟩
  distinct := by
    show ["id", "path"].Nodup
    decide

theorem record_mount (m : CustomMount) : Record m.entries where
  bare := bare_of_keys (by
    show ∀ name ∈ ["mount_point", "host_path", "policy"], isBare name = true
    decide)
  plain := by
    simp only [CustomMount.entries, List.forall_mem_cons]
    exact ⟨.string _, .string _, .string _, by simp⟩
  distinct := by
    show ["mount_point", "host_path", "policy"].Nodup
    decide

/-- An array of records is plain if it is empty. -/
theorem flat_array {α : Type} {record : α → List (String × TomlTree)} (h : ∀ x, Record (record x))
    (xs : List α) : Flat (.array (xs.map fun x => .table (record x))) := by
  cases xs with
  | nil => exact .plain .nothing
  | cons x rest =>
    have hrecords : ∀ entries ∈ (x :: rest).map record, Record entries := by
      intro entries hentries
      obtain ⟨x, -, rfl⟩ := List.mem_map.mp hentries
      exact h x
    have hitems : Flat (.array (((x :: rest).map record).map .table)) := .tables (by simp) hrecords
    rwa [List.map_map] at hitems

namespace HostConfig

/-- The idle times fit in signed words. -/
structure Fits (c : HostConfig) : Prop where
  abort : c.abortTimeoutMs.toNat < Nat.pow 2 63
  standards : c.standardsTimeoutMs.toNat < Nat.pow 2 63

/-- The names of the settings, in the order in which they are written. -/
def names (script args : Bool) : List String :=
  ["standards_mode", "vanilla", "server_mode", "http_enable", "debug_enable", "mount_mode",
    "rom_read_only", "abort_timeout_ms", "standards_timeout_ms", "default_computer_settings",
    "disable_lua51_features", "computer_root", "rom_path", "render_mode", "custom_data_dirs",
    "custom_mounts"] ++ (if script then ["startup_script"] else []) ++
    (if args then ["startup_args"] else [])

section
variable {c : HostConfig} {found : List (String × TomlTree)}

theorem keys_entries (c : HostConfig) :
    c.entries.map (·.1) = names c.startupScript.isSome c.startupArgs.isSome := by
  unfold entries optional
  cases c.startupScript <;> cases c.startupArgs <;> rfl

theorem bare_names : ∀ script args, ∀ name ∈ names script args, isBare name = true := by
  decide

theorem nodup_names : ∀ script args, (names script args).Nodup := by
  decide

theorem flat_optional (name : String) (text : Option String) :
    ∀ entry ∈ optional name text, Flat entry.2 := by
  intro entry hentry
  obtain ⟨s, -, rfl⟩ : ∃ s, text = some s ∧ (name, TomlTree.string s) = entry := by
    simpa [optional] using hentry
  exact .plain (.string s)

theorem flat_entries (hc : c.Fits) : ∀ entry ∈ c.entries, Flat entry.2 := by
  have hdirs : Flat (.array (c.customDataDirs.map CustomDataDir.toTree)) :=
    flat_array record_dataDir c.customDataDirs
  have hmounts : Flat (.array (c.customMounts.map CustomMount.toTree)) :=
    flat_array record_mount c.customMounts
  have hboolean (b : Bool) : Flat (.boolean b) := .plain (.boolean b)
  have hstring (text : String) : Flat (.string text) := .plain (.string text)
  simp only [entries, List.forall_mem_append, List.forall_mem_cons]
  exact ⟨⟨⟨hboolean _, hboolean _, hboolean _, hboolean _, hboolean _, hstring _, hboolean _,
    .plain (.integer hc.abort), .plain (.integer hc.standards), hstring _, hboolean _, hstring _,
    hstring _, hstring _, hdirs, hmounts, by simp⟩, flat_optional _ _⟩, flat_optional _ _⟩

/-- Settings whose idle times fit are printed as a document. -/
theorem document_entries (hc : c.Fits) : Document c.entries where
  bare := bare_of_keys (by
    rw [keys_entries]
    exact bare_names _ _)
  flat := flat_entries hc
  distinct := by
    rw [keys_entries]
    exact nodup_names _ _

/-! ## 2. Reading -/

/-- Settings depend on what the names stand for, and not on the order of the entries. -/
theorem amend?_congr (c : HostConfig) {found found' : List (String × TomlTree)}
    (h : ∀ name, found.lookup name = found'.lookup name) : c.amend? found = c.amend? found' := by
  unfold amend? setting?
  simp only [h]

theorem lookup_printed (hc : c.Fits) (name : String) :
    (printed c.entries).lookup name = c.entries.lookup name := by
  have hperm := printed_perm c.entries
  have hdistinct := (document_entries hc).distinct
  have hdistinct' : ((printed c.entries).map (·.1)).Nodup := (hperm.map _).nodup_iff.mpr hdistinct
  refine Option.ext fun v => ⟨fun h => ?_, fun h => ?_⟩
  · exact lookup_of_mem hdistinct (hperm.mem_iff.mp (mem_of_lookup h))
  · exact lookup_of_mem hdistinct' (hperm.mem_iff.mpr (mem_of_lookup h))

theorem word64?_toNat (u : UInt64) : word64? (.integer u.toNat) = some u := by
  have hlow : u.toNat < UInt64.size := u.toNat_lt
  unfold word64?
  dsimp only
  rw [if_pos ⟨Int.natCast_nonneg _, Int.ofNat_lt.mpr hlow⟩, Int.toNat_natCast, UInt64.ofNat_toNat]

theorem word32?_toNat (u : UInt32) : word32? (.integer u.toNat) = some u := by
  have hlow : u.toNat < UInt32.size := u.toNat_lt
  unfold word32?
  dsimp only
  rw [if_pos ⟨Int.natCast_nonneg _, Int.ofNat_lt.mpr hlow⟩, Int.toNat_natCast, UInt32.ofNat_toNat]

/-- A list of records that can be read back one by one. -/
theorem listOf?_map {α : Type} {write : α → TomlTree} {read : TomlTree → Option α}
    (h : ∀ x, read (write x) = some x) (xs : List α) : listOf? read (.array (xs.map write)) = some xs := by
  show (xs.map write).mapM read = some xs
  rw [List.mapM_map]
  have hread : read ∘ write = fun x => pure x := funext h
  rw [hread]
  exact (List.mapM_pure (f := id)).trans (by simp)

theorem ofTree?_dataDir (d : CustomDataDir) : CustomDataDir.ofTree? d.toTree = some d := by
  have hentries : entries? ["id", "path"] d.toTree = some d.entries := rfl
  have hid : required? d.entries "id" word32? = some d.id := by
    unfold required? CustomDataDir.entries
    rw [List.lookup_cons, beq_self_eq_true]
    dsimp only
    rw [Option.bind_some, word32?_toNat]
  have hpath : required? d.entries "path" text? = some d.path := by
    simp [required?, CustomDataDir.entries, List.lookup_cons, text?]
  unfold CustomDataDir.ofTree?
  rw [hentries, Option.bind_eq_bind, Option.bind_some, hid, Option.bind_eq_bind, Option.bind_some, hpath]
  rfl

theorem ofTree?_mount (m : CustomMount) : CustomMount.ofTree? m.toTree = some m := by
  simp [CustomMount.ofTree?, CustomMount.toTree, entries?, required?, setting?, List.lookup_cons, text?,
    choice?, MountPolicy.ofName?_name]

/-- The settings are read from their own entries. -/
theorem amend?_entries (c : HostConfig) : default.amend? c.entries = some c := by
  have hdirs := listOf?_map ofTree?_dataDir c.customDataDirs
  have hmounts := listOf?_map ofTree?_mount c.customMounts
  obtain ⟨_, _, _, _, _, _, _, _, _, _, _, _, _, _, _, _, startupScript, startupArgs⟩ := c
  cases startupScript <;> cases startupArgs <;>
  · simp [amend?, setting?, entries, optional, List.lookup_cons, bool?, text?, choice?, word64?_toNat,
      MountMode.ofName?_name, RenderMode.ofName?_name, hdirs, hmounts, default]

/-! ## 3. Whole texts -/

/-- Settings whose idle times fit are read back from the text that is printed for them. -/
theorem ofText?_of_fits (hc : c.Fits) : ofText? c.toText = some c := by
  rw [ofText?, toText, parse_print (document_entries hc), Option.bind_some, ofTree?,
    amend?_congr default (lookup_printed hc), amend?_entries]

theorem word64?_fits {v : TomlTree} {u : UInt64} (hv : v.Fits) (h : word64? v = some u) :
    u.toNat < Nat.pow 2 63 := by
  unfold word64? at h
  split at h
  · next i =>
    have hlow := hv i rfl
    split at h
    · next hbounds =>
      cases h
      rw [UInt64.toNat_ofNat_of_lt' ((Int.toNat_lt hbounds.1).mpr hbounds.2)]
      exact (Int.toNat_lt hbounds.1).mpr hlow
    · cases h
  · cases h

/-- An idle time that a document gives, or a default one. -/
theorem setting?_fits {entries : List (String × TomlTree)} {name : String} {other u : UInt64}
    (hentries : ∀ name v, (name, v) ∈ entries → v.Fits) (hother : other.toNat < Nat.pow 2 63)
    (h : setting? entries name word64? other = some u) : u.toNat < Nat.pow 2 63 := by
  unfold setting? at h
  split at h
  · next v hv => exact word64?_fits (hentries name v (mem_of_lookup hv)) h
  · cases h
    exact hother

/-- The idle times of settings that were read fit. -/
theorem fits_of_ofText? {text : String} (h : ofText? text = some c) : c.Fits := by
  obtain ⟨tree, hparse, hread⟩ := Option.bind_eq_some_iff.mp h
  obtain ⟨entries, rfl, hentries⟩ := parse_fits hparse
  replace hread : default.amend? entries = some c := hread
  -- two of the eighteen settings that are read, one after the other, hold a number of milliseconds
  iterate 7 obtain ⟨_, -, hread⟩ := Option.bind_eq_some_iff.mp hread
  obtain ⟨abortTimeoutMs, habort, hread⟩ := Option.bind_eq_some_iff.mp hread
  obtain ⟨standardsTimeoutMs, hstandards, hread⟩ := Option.bind_eq_some_iff.mp hread
  iterate 9 obtain ⟨_, -, hread⟩ := Option.bind_eq_some_iff.mp hread
  cases hread
  exact ⟨setting?_fits hentries (by decide) habort, setting?_fits hentries (by decide) hstandards⟩

/-- Printed settings are read back: what is printed for settings that were read from a text is read as the
same settings. -/
theorem printed_settings_read_back {text : String} (h : ofText? text = some c) :
    ofText? c.toText = some c ∧
      ∀ (fuel : Nat) (s : Command.Surroundings) (tree : FileTree) (args : List String) (path : String),
        Command.parse args = .ok (.config (some path)) → tree.readText path = .ok text →
        (Command.execute fuel s tree args).output = .ok c.toText := by
  refine ⟨ofText?_of_fits (fits_of_ofText? h), fun fuel s tree args path hargs hfile => ?_⟩
  have hload : HostConfig.load tree path = .ok c := by
    unfold HostConfig.load
    rw [hfile]
    dsimp only
    rw [h]
  unfold Command.execute
  rw [hargs]
  dsimp only
  unfold Command.loadConfig
  dsimp only
  rw [hload]
  rfl

/-- An idle time, a text with a quote in it, and a data directory. -/
def sample : String :=
  "startup_args = 'say \"a\"'\nabort_timeout_ms = 1\n[[custom_data_dirs]]\nid = 7\npath = \"x\"\n"

/-- What the sample says. -/
def sampled : HostConfig :=
  { default with
    abortTimeoutMs := 1
    customDataDirs := [⟨7, "x"⟩]
    startupArgs := some "say \"a\"" }

theorem printed_settings_read_back_sample :
    ofText? sample = some sampled ∧ ofText? sampled.toText = some sampled ∧
      ∀ (fuel : Nat) (s : Command.Surroundings) (tree : FileTree) (args : List String) (path : String),
        Command.parse args = .ok (.config (some path)) → tree.readText path = .ok sample →
        (Command.execute fuel s tree args).output = .ok sampled.toText := by
  have hread : ofText? sample = some sampled := by decide +kernel
  exact ⟨hread, printed_settings_read_back hread⟩

end

end HostConfig

end ComputerHost

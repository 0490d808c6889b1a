import Mathlib.Data.List.DropRight
import Mathlib.Data.List.Nodup
import ComputerHost.Proofs.Host.Construction

/-!
# What is mounted into a new computer

The system mounts come first, and custom ones are asked for one after the other; each sees the mounts that
were made before it. `Refuses` says which are refused then, and `Admits` what the mounts come to. Since a
mount point is taken once and for all, the ROM stays where it is (`Tidy`), whatever is asked for.

Custom mounts have no say in whether a computer can be constructed at all; a host that is asked for other
ones (`asking`) constructs the same computers, but for their mounts.

Results:
1. `mount?_eq_none_iff`, `mount?_eq_some`, `Tidy.concat`: one mount.
2. `Admits.unique`, `Admits.tidy`, `Admits.grants`: custom mounts.
3. `mounts_of_create`, `create_asking`, `create_mount_error_iff`: constructions.
4. `new_computer_mounts`: what is mounted, and when that fails. `strict_mounts_read_only_unless_forced`:
   which custom mounts are read-only under the strict mode.
-/

namespace ComputerHost

namespace Text

/-- The first text is the second one with this character around it, maybe several times, and the second one
has none of it at its ends. -/
structure StripsBoth (c : Char) (s t : List Char) : Prop where
  parts : ∃ before after, s = before ++ t ++ after ∧ (∀ d ∈ before, d = c) ∧ ∀ d ∈ after, d = c
  head : t.head? ≠ some c
  last : t.getLast? ≠ some c

theorem stripsBoth_withoutBoth (c : Char) (s : String) :
    StripsBoth c s.toList (withoutBoth c s).toList := by
  unfold withoutBoth
  rw [String.toList_ofList]
  generalize s.toList = cs
  let rest := cs.dropWhile (· == c)
  have hfront : cs.takeWhile (· == c) ++ rest = cs := List.takeWhile_append_dropWhile
  have hback : rest.rdropWhile (· == c) ++ rest.rtakeWhile (· == c) = rest :=
    List.rdropWhile_append_rtakeWhile ..
  refine ⟨⟨cs.takeWhile (· == c), rest.rtakeWhile (· == c), ?_, ?_, ?_⟩, ?_, ?_⟩
  · show cs = cs.takeWhile (· == c) ++ rest.rdropWhile (· == c) ++ rest.rtakeWhile (· == c)
    rw [List.append_assoc, hback, hfront]
  · exact fun d hd => eq_of_beq (List.mem_takeWhile_imp (p := (· == c)) hd)
  · exact fun d hd => eq_of_beq (List.mem_rtakeWhile_imp (p := (· == c)) hd)
  · intro hhead
    have hrest : rest.head? = some c := by
      rw [← hback, List.head?_append]
      exact Option.or_eq_some_iff.mpr (.inl hhead)
    have hnot := List.head?_dropWhile_not (· == c) cs
    rw [show (cs.dropWhile (· == c)).head? = some c from hrest] at hnot
    simp at hnot
  · intro hlast
    obtain ⟨hne, heq⟩ := List.mem_getLast?_eq_getLast hlast
    refine List.rdropWhile_last_not (· == c) rest hne ?_
    exact beq_iff_eq.mpr heq.symm

end Text

namespace MountTable

/-- A custom mount that may not be made, is no directory, or comes too late for its mount point. -/
def Refuses (mode : MountMode) (isDirectory : String → Bool) (mounts : List Mount)
    (custom : CustomMount) : Prop :=
  custom.policy.readOnly? mode = none ∨ isDirectory custom.hostPath = false ∨
    ∃ m ∈ mounts, m.point = trimPoint custom.mountPoint

/-- What the first mounts come to when these custom ones are asked for, one after the other. -/
inductive Admits (mode : MountMode) (isDirectory : String → Bool) :
    List Mount → List CustomMount → List Mount → Prop
  | nil {mounts : List Mount} : Admits mode isDirectory mounts [] mounts
  | made {mounts all : List Mount} {custom : CustomMount} {customs : List CustomMount}
      {readOnly : Bool} :
      custom.policy.readOnly? mode = some readOnly → isDirectory custom.hostPath = true →
      (∀ m ∈ mounts, m.point ≠ trimPoint custom.mountPoint) →
      Admits mode isDirectory
        (mounts ++ [⟨trimPoint custom.mountPoint, custom.hostPath, readOnly⟩]) customs all →
      Admits mode isDirectory mounts (custom :: customs) all
  | refused {mounts all : List Mount} {custom : CustomMount} {customs : List CustomMount} :
      Refuses mode isDirectory mounts custom → Admits mode isDirectory mounts customs all →
      Admits mode isDirectory mounts (custom :: customs) all

/-- A mount is made as a custom one asks for it. -/
structure Grants (mode : MountMode) (isDirectory : String → Bool) (custom : CustomMount) (m : Mount) :
    Prop where
  point : m.point = trimPoint custom.mountPoint
  hostPath : m.hostPath = custom.hostPath
  isDirectory : isDirectory custom.hostPath = true
  readOnly : custom.policy.readOnly? mode = some m.readOnly

/-- No mount point is used twice, and none has a slash at an end. -/
structure Tidy (mounts : List Mount) : Prop where
  nodup : (mounts.map (·.point)).Nodup
  bare : ∀ m ∈ mounts, m.point.toList.head? ≠ some '/' ∧ m.point.toList.getLast? ≠ some '/'

section
variable {mode : MountMode} {isDirectory : String → Bool} {t : MountTable} {mounts all : List Mount}
  {custom : CustomMount} {customs before after : List CustomMount} {hostPath point : String}
  {readOnly : Bool} {m : Mount}

/-! ## 1. One mount -/

theorem mount?_eq_none_iff : t.mount? isDirectory hostPath point readOnly = none ↔
    isDirectory hostPath = false ∨ ∃ m ∈ t.mounts, m.point = trimPoint point := by
  simp [mount?, ← Bool.not_eq_true, imp_iff_not_or]

theorem mount?_eq_some (hdir : isDirectory hostPath = true)
    (hfree : ∀ m ∈ t.mounts, m.point ≠ trimPoint point) :
    t.mount? isDirectory hostPath point readOnly =
      some ⟨t.mounts ++ [⟨trimPoint point, hostPath, readOnly⟩]⟩ := by
  simpa [mount?, hdir] using hfree

theorem stripsBoth_trimPoint (point : String) :
    Text.StripsBoth '/' point.toList (trimPoint point).toList :=
  Text.stripsBoth_withoutBoth '/' point

theorem tidy_nil : Tidy [] := ⟨List.Pairwise.nil, fun _ hm => absurd hm List.not_mem_nil⟩

theorem Tidy.concat (ht : Tidy mounts) (hfree : ∀ m ∈ mounts, m.point ≠ trimPoint point) :
    Tidy (mounts ++ [⟨trimPoint point, hostPath, readOnly⟩]) where
  nodup := by
    rw [List.map_append, List.nodup_append]
    refine ⟨ht.nodup, List.pairwise_singleton .., ?_⟩
    intro p hp q hq
    obtain ⟨m, hm, rfl⟩ := List.mem_map.mp hp
    rw [List.mem_singleton.mp hq]
    exact hfree m hm
  bare m hm := by
    rcases List.mem_append.mp hm with hm | hm
    · exact ht.bare m hm
    · rw [List.mem_singleton.mp hm]
      have hstrips := stripsBoth_trimPoint point
      exact ⟨hstrips.head, hstrips.last⟩

theorem Tidy.eq_of_point {m' : Mount} (ht : Tidy mounts) (hm : m ∈ mounts) (hm' : m' ∈ mounts)
    (heq : m.point = m'.point) : m = m' :=
  List.inj_on_of_nodup_map ht.nodup hm hm' heq

/-! ## 2. Custom mounts -/

theorem Admits.tidy (ha : Admits mode isDirectory mounts customs all) (ht : Tidy mounts) :
    Tidy all := by
  induction ha with
  | nil => exact ht
  | made _ _ hfree _ ih => exact ih (ht.concat hfree)
  | refused _ _ ih => exact ih ht

/-- No other policy lifts the strict mode. -/
theorem readOnly?_strict {policy : MountPolicy}
    (hpolicy : policy.readOnly? .readOnlyStrict = some readOnly) :
    readOnly = true ↔ policy ≠ .forceReadWrite := by
  cases policy <;> cases hpolicy <;> simp

/-- The mounts that are made were asked for, in this order. -/
theorem Admits.grants (ha : Admits mode isDirectory mounts customs all) :
    ∃ kept made, kept.Sublist customs ∧ all = mounts ++ made ∧
      List.Forall₂ (Grants mode isDirectory) kept made := by
  induction ha with
  | nil => exact ⟨[], [], .refl _, (List.append_nil _).symm, .nil⟩
  | @made _ _ custom _ _ hpolicy hdir _ _ ih =>
    obtain ⟨kept, made, hkept, rfl, hgrants⟩ := ih
    exact ⟨custom :: kept, _ :: made, hkept.cons_cons custom, List.append_assoc ..,
      .cons ⟨rfl, rfl, hdir, hpolicy⟩ hgrants⟩
  | @refused _ _ custom _ _ _ ih =>
    obtain ⟨kept, made, hkept, heq, hgrants⟩ := ih
    exact ⟨kept, made, hkept.cons custom, heq, hgrants⟩

theorem not_refuses (hpolicy : custom.policy.readOnly? mode = some readOnly)
    (hdir : isDirectory custom.hostPath = true)
    (hfree : ∀ m ∈ mounts, m.point ≠ trimPoint custom.mountPoint) :
    ¬Refuses mode isDirectory mounts custom := by
  rintro (hnone | hno | ⟨m, hm, htaken⟩)
  · cases hpolicy.symm.trans hnone
  · cases hdir.symm.trans hno
  · exact hfree m hm htaken

theorem Admits.unique {all' : List Mount} (ha : Admits mode isDirectory mounts customs all)
    (ha' : Admits mode isDirectory mounts customs all') : all = all' := by
  induction ha with
  | nil =>
    cases ha'
    rfl
  | made hpolicy hdir hfree _ ih =>
    cases ha' with
    | made hpolicy' _ _ ha' =>
      cases hpolicy.symm.trans hpolicy'
      exact ih ha'
    | refused hr => exact absurd hr (not_refuses hpolicy hdir hfree)
  | refused hr _ ih =>
    cases ha' with
    | made hpolicy hdir hfree => exact absurd hr (not_refuses hpolicy hdir hfree)
    | refused _ ha' => exact ih ha'

end

end MountTable

/-- The mounts that every computer of a host has. -/
def HostConfig.systemMounts (c : HostConfig) (isDebugger : Bool) : List Mount :=
  ⟨"rom", c.romDir, c.romReadOnly⟩ :: if isDebugger then [⟨"debug", c.debugRomDir, true⟩] else []

namespace Host

open MountTable

/-- The host, asked for other custom mounts. -/
def asking (h : Host) (customs : List CustomMount) : Host :=
  { h with setup := { h.setup with config := { h.setup.config with customMounts := customs } } }

section
variable {h h' : Host} {id : UInt32} {isDebugger : Bool} {t : MountTable} {custom : CustomMount}
  {customs : List CustomMount} {who : Handle}

/-! ## 3. Constructions -/

theorem customMount_of_refuses
    (hr : Refuses h.config.mountMode h.tree.isDirectory t.mounts custom) :
    h.customMount t custom = t := by
  unfold customMount
  split
  · rfl
  · next readOnly hpolicy =>
    rcases hr with hnone | hr
    · cases hnone.symm.trans hpolicy
    · rw [mount?_eq_none_iff.mpr hr]
      rfl

theorem customMount_of_free {readOnly : Bool}
    (hpolicy : custom.policy.readOnly? h.config.mountMode = some readOnly)
    (hdir : h.tree.isDirectory custom.hostPath = true)
    (hfree : ∀ m ∈ t.mounts, m.point ≠ trimPoint custom.mountPoint) :
    h.customMount t custom =
      ⟨t.mounts ++ [⟨trimPoint custom.mountPoint, custom.hostPath, readOnly⟩]⟩ := by
  unfold customMount
  rw [hpolicy]
  dsimp only
  rw [mount?_eq_some hdir hfree]
  rfl

theorem admits_foldl (h : Host) (t : MountTable) (customs : List CustomMount) :
    Admits h.config.mountMode h.tree.isDirectory t.mounts customs
      (customs.foldl h.customMount t).mounts := by
  induction customs generalizing t with
  | nil => exact .nil
  | cons custom customs ih =>
    rw [List.foldl_cons]
    -- The rest is asked for in the table that this one leaves, whichever that is.
    by_cases hr : Refuses h.config.mountMode h.tree.isDirectory t.mounts custom
    · rw [customMount_of_refuses hr]
      exact .refused hr (ih t)
    · obtain ⟨hpolicy, hdir, hfree⟩ := by
        simpa only [Refuses, not_or, not_exists, not_and, Bool.not_eq_false] using hr
      obtain ⟨readOnly, hpolicy⟩ := Option.ne_none_iff_exists'.mp hpolicy
      have hrest := ih (h.customMount t custom)
      rw [customMount_of_free hpolicy hdir hfree] at hrest ⊢
      exact .made hpolicy hdir hfree hrest

theorem trimPoint_rom : trimPoint "rom" = "rom" := by decide +kernel

theorem trimPoint_debug : trimPoint "debug" = "debug" := by decide +kernel

/-- The debugger's ROM has a mount point of its own. -/
theorem debug_free (c : HostConfig) : ∀ m ∈ c.systemMounts false, m.point ≠ trimPoint "debug" := by
  intro m hm
  rw [List.mem_singleton.mp hm, trimPoint_debug]
  exact (by decide : "rom" ≠ "debug")

theorem mount_rom (h : Host) :
    MountTable.empty.mount? h.tree.isDirectory h.config.romDir "rom" h.config.romReadOnly =
      if h.tree.isDirectory h.config.romDir then some ⟨h.config.systemMounts false⟩ else none := by
  cases hdir : h.tree.isDirectory h.config.romDir with
  | true =>
    refine (mount?_eq_some hdir fun m hm => absurd hm List.not_mem_nil).trans ?_
    rw [trimPoint_rom]
    rfl
  | false => exact mount?_eq_none_iff.mpr (.inl hdir)

theorem mount_debug (h : Host) :
    MountTable.mount? ⟨h.config.systemMounts false⟩ h.tree.isDirectory h.config.debugRomDir "debug" true =
      if h.tree.isDirectory h.config.debugRomDir then some ⟨h.config.systemMounts true⟩ else none := by
  cases hdir : h.tree.isDirectory h.config.debugRomDir with
  | true =>
    refine (mount?_eq_some hdir (debug_free h.config)).trans ?_
    rw [trimPoint_debug]
    rfl
  | false => exact mount?_eq_none_iff.mpr (.inl hdir)

/-- The system mounts can be made just if their directories are there; the ROM is looked at first. -/
theorem systemMounts_eq (h : Host) (isDebugger : Bool) : h.systemMounts isDebugger =
    if h.tree.isDirectory h.config.romDir = false then .error ⟨"ROM", "rom"⟩
    else if isDebugger = true ∧ h.tree.isDirectory h.config.debugRomDir = false then
      .error ⟨"debugger ROM", "debug"⟩
    else .ok ⟨h.config.systemMounts isDebugger⟩ := by
  unfold Host.systemMounts
  rw [mount_rom]
  cases h.tree.isDirectory h.config.romDir with
  | false => rfl
  | true =>
    cases isDebugger with
    | false => rfl
    | true =>
      simp only [if_true, mount_debug]
      cases h.tree.isDirectory h.config.debugRomDir <;> rfl

theorem eq_of_systemMounts_ok (hs : h.systemMounts isDebugger = .ok t) :
    t = ⟨h.config.systemMounts isDebugger⟩ := by
  rw [systemMounts_eq] at hs
  split_ifs at hs
  exact (Except.ok.inj hs).symm

theorem tidy_systemMounts (c : HostConfig) (isDebugger : Bool) : Tidy (c.systemMounts isDebugger) := by
  have hrom : Tidy (c.systemMounts false) := by
    have hnew : Tidy ([] ++ [⟨trimPoint "rom", c.romDir, c.romReadOnly⟩]) :=
      tidy_nil.concat fun m hm => absurd hm List.not_mem_nil
    rwa [trimPoint_rom] at hnew
  cases isDebugger with
  | false => exact hrom
  | true =>
    have hnew : Tidy (c.systemMounts false ++ [⟨trimPoint "debug", c.debugRomDir, true⟩]) :=
      hrom.concat (debug_free c)
    rwa [trimPoint_debug] at hnew

/-- The terminal that a construction makes first. -/
def newTerminal (h : Host) (id : UInt32) (config : ComputerConfig) : Option Nat × Host :=
  h.openTerminal id (terminalTitle config id) (!config.isColor)

theorem create_eq (h : Host) (id : UInt32) (isDebugger : Bool) : h.create id isDebugger =
    match h.store.load h.tree id with
    | .error e => (.error (.config e), h)
    | .ok config =>
      let (terminal, h₁) := h.newTerminal id config
      match h.systemMounts isDebugger with
      | .error failure =>
        (.error (.mount failure),
          if h.config.standardsMode then h₁.orphanTerminal id terminal "Cannot mount ROM"
          else h₁.destroyTerminal id terminal)
      | .ok system =>
        match h.tree.makePath (h.config.dataDir id) with
        | (.error e, tree) =>
          (.error (.dataDir (h.config.dataDir id) e.detail), { h₁ with tree }.destroyTerminal id terminal)
        | (.ok (), tree) =>
          (.ok ⟨id, h.counters.generation⟩, { h₁ with
            tree, counters := (h.counters.newHandle id).2,
            computers := h.computers ++ [Computer.new ⟨id, h.counters.generation⟩ isDebugger terminal
              (h.config.customMounts.foldl h.customMount system) config (h.config.dataDir id)] }) := by
  unfold create newTerminal
  cases h.store.load h.tree id with
  | error e => rfl
  | ok config =>
    unfold openTerminal
    cases h.setup.terminals <;> rfl

theorem newTerminal_asking (h : Host) (id : UInt32) (config : ComputerConfig)
    (customs : List CustomMount) : (h.asking customs).newTerminal id config =
      ((h.newTerminal id config).1, (h.newTerminal id config).2.asking customs) := by
  have hterminals : (h.asking customs).setup.terminals = h.setup.terminals := rfl
  unfold newTerminal openTerminal
  rw [hterminals]
  cases h.setup.terminals <;> rfl

theorem destroyTerminal_asking (h : Host) (id : UInt32) (terminal : Option Nat)
    (customs : List CustomMount) :
    (h.asking customs).destroyTerminal id terminal = (h.destroyTerminal id terminal).asking customs := by
  cases terminal <;> rfl

theorem orphanTerminal_asking (h : Host) (id : UInt32) (terminal : Option Nat) (message : String)
    (customs : List CustomMount) : (h.asking customs).orphanTerminal id terminal message =
      (h.orphanTerminal id terminal message).asking customs := by
  cases terminal <;> rfl

/-- Other custom mounts matter for the mounts of the new computer only. -/
theorem create_asking (h : Host) (id : UInt32) (isDebugger : Bool) (customs : List CustomMount) :
    ((h.asking customs).create id isDebugger).1 = (h.create id isDebugger).1 ∧
      (customs.foldl h.customMount ⟨h.config.systemMounts isDebugger⟩ =
        h.config.customMounts.foldl h.customMount ⟨h.config.systemMounts isDebugger⟩ →
      ((h.asking customs).create id isDebugger).2 = (h.create id isDebugger).2.asking customs) := by
  have hload : (h.asking customs).store.load (h.asking customs).tree id = h.store.load h.tree id := rfl
  have hsystem : (h.asking customs).systemMounts isDebugger = h.systemMounts isDebugger := rfl
  have hdir : (h.asking customs).tree.makePath ((h.asking customs).config.dataDir id) =
    h.tree.makePath (h.config.dataDir id) := rfl
  rw [create_eq, create_eq, hload, hsystem, hdir]
  cases h.store.load h.tree id with
  | error e => exact ⟨rfl, fun _ => rfl⟩
  | ok config =>
    dsimp only
    rw [newTerminal_asking]
    cases hs : h.systemMounts isDebugger with
    | error failure =>
      refine ⟨rfl, fun _ => ?_⟩
      dsimp only
      rw [destroyTerminal_asking, orphanTerminal_asking]
      cases hstrict : h.config.standardsMode <;>
        simp only [show (h.asking customs).config.standardsMode = _ from hstrict] <;> rfl
    | ok system =>
      rcases h.tree.makePath (h.config.dataDir id) with ⟨e | ⟨⟩, tree⟩
      · exact ⟨rfl, fun _ =>
          destroyTerminal_asking { (h.newTerminal id config).2 with tree } id _ customs⟩
      · refine ⟨rfl, fun hsame => ?_⟩
        rw [← eq_of_systemMounts_ok hs] at hsame
        show ({ (h.newTerminal id config).2.asking customs with
          tree, counters := (h.counters.newHandle id).2,
          computers := h.computers ++ [Computer.new ⟨id, h.counters.generation⟩ isDebugger
            (h.newTerminal id config).1 (customs.foldl h.customMount system) config
            (h.config.dataDir id)] } : Host) = _
        rw [hsame]
        rfl

/-- The mounts of a new computer. -/
theorem mounts_of_create (hc : h.create id isDebugger = (.ok who, h')) :
    ∃ c, h'.computers = h.computers ++ [c] ∧ c.handle = who ∧ c.mounts =
      h.config.customMounts.foldl h.customMount ⟨h.config.systemMounts isDebugger⟩ := by
  rw [create_eq] at hc
  cases hload : h.store.load h.tree id with
  | error e =>
    rw [hload] at hc
    cases hc
  | ok config =>
    rw [hload] at hc
    cases hs : h.systemMounts isDebugger with
    | error failure =>
      rw [hs] at hc
      cases hc
    | ok system =>
      rw [hs] at hc
      rcases hdir : h.tree.makePath (h.config.dataDir id) with ⟨e | ⟨⟩, tree⟩ <;>
        (rw [hdir] at hc; cases hc)
      rw [← eq_of_systemMounts_ok hs]
      exact ⟨_, rfl, rfl, rfl⟩

theorem systemMounts_error_iff_dirs {failure : MountFailure} :
    h.systemMounts isDebugger = .error failure ↔
      (h.tree.isDirectory h.config.romDir = false ∧ failure = ⟨"ROM", "rom"⟩) ∨
      (h.tree.isDirectory h.config.romDir = true ∧ isDebugger = true ∧
        h.tree.isDirectory h.config.debugRomDir = false ∧ failure = ⟨"debugger ROM", "debug"⟩) := by
  rw [systemMounts_eq]
  split_ifs with hrom hdebug
  · constructor
    · rintro ⟨⟩
      exact .inl ⟨hrom, rfl⟩
    · rintro (⟨-, rfl⟩ | ⟨hdir, -⟩)
      · rfl
      · cases hrom.symm.trans hdir
  · constructor
    · rintro ⟨⟩
      exact .inr ⟨(Bool.not_eq_false _).mp hrom, hdebug.1, hdebug.2, rfl⟩
    · rintro (⟨hdir, -⟩ | ⟨-, -, -, rfl⟩)
      · exact absurd hdir hrom
      · rfl
  · refine ⟨nofun, ?_⟩
    rintro (⟨hdir, -⟩ | ⟨-, hd, hdir, -⟩)
    · exact absurd hdir hrom
    · exact absurd ⟨hd, hdir⟩ hdebug

theorem create_mount_error_iff {failure : MountFailure} :
    (h.create id isDebugger).1 = .error (.mount failure) ↔
      (∃ config, h.store.load h.tree id = .ok config) ∧ h.systemMounts isDebugger = .error failure := by
  rw [create_eq]
  cases h.store.load h.tree id with
  | error e => simp
  | ok config =>
    cases h.systemMounts isDebugger with
    | error failure' => simp
    | ok system => rcases h.tree.makePath (h.config.dataDir id) with ⟨e | ⟨⟩, tree⟩ <;> simp

/-- A custom mount that is refused may as well not be asked for. -/
theorem create_without_refused {before after : List CustomMount} {mounts : List Mount}
    (hcustoms : h.config.customMounts = before ++ custom :: after)
    (ha : Admits h.config.mountMode h.tree.isDirectory (h.config.systemMounts isDebugger) before mounts)
    (hr : Refuses h.config.mountMode h.tree.isDirectory mounts custom) :
    (h.asking (before ++ after)).create id isDebugger =
      ((h.create id isDebugger).1, (h.create id isDebugger).2.asking (before ++ after)) := by
  obtain ⟨hresult, hhost⟩ := create_asking h id isDebugger (before ++ after)
  refine Prod.ext hresult (hhost ?_)
  obtain rfl := ha.unique (admits_foldl h ⟨h.config.systemMounts isDebugger⟩ before)
  rw [hcustoms, List.foldl_append, List.foldl_append, List.foldl_cons, customMount_of_refuses hr]

/-! ## 4. Every construction -/

/-- A new computer has the system mounts, then the custom ones that are not refused, in this order. Each has
a mount point of its own, without slashes around it, and the one named `rom` is the ROM. Which custom mounts
are asked for does not matter for the success of a construction, and one that is refused might as well be
left out. Mounts are why a construction fails just if the settings can be loaded, and the ROM's directory
or the debugger's is missing. -/
theorem new_computer_mounts (h : Host) (id : UInt32) (isDebugger : Bool) :
    (∀ who h', h.create id isDebugger = (.ok who, h') →
      ∃ c, h'.computers = h.computers ++ [c] ∧ c.handle = who ∧
        Admits h.config.mountMode h.tree.isDirectory (h.config.systemMounts isDebugger)
          h.config.customMounts c.mounts.mounts ∧
        Tidy c.mounts.mounts ∧
        ∀ m ∈ c.mounts.mounts, m.point = "rom" → m = ⟨"rom", h.config.romDir, h.config.romReadOnly⟩) ∧
    (∀ point, Text.StripsBoth '/' point.toList (trimPoint point).toList) ∧
    (∀ customs, ((h.asking customs).create id isDebugger).1 = (h.create id isDebugger).1) ∧
    (∀ before custom after mounts, h.config.customMounts = before ++ custom :: after →
      Admits h.config.mountMode h.tree.isDirectory (h.config.systemMounts isDebugger) before mounts →
      Refuses h.config.mountMode h.tree.isDirectory mounts custom →
      (h.asking (before ++ after)).create id isDebugger =
        ((h.create id isDebugger).1, (h.create id isDebugger).2.asking (before ++ after))) ∧
    ∀ failure, (h.create id isDebugger).1 = .error (.mount failure) ↔
      (∃ config, h.store.load h.tree id = .ok config) ∧
      ((h.tree.isDirectory h.config.romDir = false ∧ failure = ⟨"ROM", "rom"⟩) ∨
      (h.tree.isDirectory h.config.romDir = true ∧ isDebugger = true ∧
        h.tree.isDirectory h.config.debugRomDir = false ∧ failure = ⟨"debugger ROM", "debug"⟩)) := by
  refine ⟨?_, stripsBoth_trimPoint, fun customs => (create_asking h id isDebugger customs).1, ?_, ?_⟩
  · intro who h' hc
    obtain ⟨c, hcomputers, hhandle, hmounts⟩ := mounts_of_create hc
    have ha := admits_foldl h ⟨h.config.systemMounts isDebugger⟩ h.config.customMounts
    rw [← hmounts] at ha
    have htidy := ha.tidy (tidy_systemMounts h.config isDebugger)
    refine ⟨c, hcomputers, hhandle, ha, htidy, fun m hm hrom => ?_⟩
    obtain ⟨kept, made, -, hall, -⟩ := ha.grants
    have hin : (⟨"rom", h.config.romDir, h.config.romReadOnly⟩ : Mount) ∈ c.mounts.mounts := by
      rw [hall]
      exact List.mem_append_left made List.mem_cons_self
    exact htidy.eq_of_point hm hin hrom
  · exact fun before custom after mounts hcustoms ha hr => create_without_refused hcustoms ha hr
  · intro failure
    rw [create_mount_error_iff, systemMounts_error_iff_dirs]

end

/-- A host that is asked for the ROM's mount point, for one twice, for a directory that is not there, and for
one that may be written to although mounts are to be read-only. -/
def overbooked : Host :=
  Host.new
    (HostSetup.standard { HostConfig.default with
      mountMode := .readOnlyStrict
      customMounts := [⟨"//rom/", "data", .default⟩, ⟨"/data/", "data", .forceReadWrite⟩,
        ⟨"data", "more", .default⟩, ⟨"gone", "gone", .forceReadOnly⟩, ⟨"more///", "more", .default⟩] })
    ⟨[(["rom"], .directory), (["debug"], .directory), (["data"], .directory), (["more"], .directory)], []⟩
    default

/-- Two of five custom mounts are made; the first one is refused and might be left out. -/
theorem new_computer_mounts_overbooked :
    ∃ c, (overbooked.create 1 true).2.computers = [c] ∧ Tidy c.mounts.mounts ∧
      c.mounts.mounts = [⟨"rom", "./rom", true⟩, ⟨"debug", "./debug", true⟩, ⟨"data", "data", false⟩,
        ⟨"more", "more", true⟩] ∧
      (overbooked.asking (overbooked.config.customMounts.drop 1)).create 1 true =
        ((overbooked.create 1 true).1,
          (overbooked.create 1 true).2.asking (overbooked.config.customMounts.drop 1)) := by
  obtain ⟨hmade, -, -, hwithout, -⟩ := new_computer_mounts overbooked 1 true
  have hok : (overbooked.create 1 true).1 = .ok ⟨1, 1⟩ := by decide +kernel
  have hmounts : (overbooked.create 1 true).2.computers.map (·.mounts.mounts) =
      [[⟨"rom", "./rom", true⟩, ⟨"debug", "./debug", true⟩, ⟨"data", "data", false⟩,
        ⟨"more", "more", true⟩]] := by decide +kernel
  have htaken : "rom" = trimPoint "//rom/" := by decide +kernel
  have hrefused : Refuses overbooked.config.mountMode overbooked.tree.isDirectory
      (overbooked.config.systemMounts true) ⟨"//rom/", "data", .default⟩ :=
    .inr (.inr ⟨_, List.mem_cons_self, htaken⟩)
  have hdrop := hwithout [] ⟨"//rom/", "data", .default⟩ (overbooked.config.customMounts.drop 1)
    (overbooked.config.systemMounts true) rfl .nil hrefused
  obtain ⟨c, hcomputers, -, -, htidy, -⟩ := hmade ⟨1, 1⟩ (overbooked.create 1 true).2 (Prod.ext hok rfl)
  rw [hcomputers] at hmounts
  exact ⟨c, hcomputers, htidy, List.singleton_inj.mp hmounts, hdrop⟩

/-- Under the strict mode a custom mount is read-only unless it asks to be written to. -/
theorem strict_mounts_read_only_unless_forced {h h' : Host} {id : UInt32} {isDebugger : Bool}
    {who : Handle} (hstrict : h.config.mountMode = .readOnlyStrict)
    (hc : h.create id isDebugger = (.ok who, h')) :
    ∃ c kept made, h'.computers = h.computers ++ [c] ∧ c.handle = who ∧
      c.mounts.mounts = h.config.systemMounts isDebugger ++ made ∧
      kept.Sublist h.config.customMounts ∧
      List.Forall₂ (fun custom m => m.point = trimPoint custom.mountPoint ∧
        m.hostPath = custom.hostPath ∧ (m.readOnly = true ↔ custom.policy ≠ .forceReadWrite)) kept made := by
  obtain ⟨c, hcomputers, hhandle, hmounts⟩ := mounts_of_create hc
  have ha := admits_foldl h ⟨h.config.systemMounts isDebugger⟩ h.config.customMounts
  rw [← hmounts, hstrict] at ha
  obtain ⟨kept, made, hkept, hall, hgrants⟩ := ha.grants
  refine ⟨c, kept, made, hcomputers, hhandle, hall, hkept, hgrants.imp fun custom m hg => ?_⟩
  exact ⟨hg.point, hg.hostPath, readOnly?_strict hg.readOnly⟩

/-- The one mount that asks for it can be written to. -/
theorem strict_mounts_read_only_unless_forced_overbooked :
    overbooked.config.mountMode = .readOnlyStrict ∧
    ∃ c kept made, (overbooked.create 1 false).2.computers = [c] ∧
      kept.Sublist overbooked.config.customMounts ∧
      c.mounts.mounts = overbooked.config.systemMounts false ++ made ∧
      made.map (fun m => (m.point, m.readOnly)) = [("data", false), ("more", true)] ∧
      List.Forall₂ (fun custom m => m.readOnly = true ↔ custom.policy ≠ .forceReadWrite) kept made := by
  have hok : (overbooked.create 1 false).1 = .ok ⟨1, 1⟩ := by decide +kernel
  have hmounts : (overbooked.create 1 false).2.computers.map (fun c =>
      c.mounts.mounts.map fun m => (m.point, m.readOnly)) =
      [[("rom", true), ("data", false), ("more", true)]] := by decide +kernel
  have hc : overbooked.create 1 false = (.ok ⟨1, 1⟩, (overbooked.create 1 false).2) := Prod.ext hok rfl
  obtain ⟨c, kept, made, hcomputers, -, hall, hkept, hasked⟩ :=
    strict_mounts_read_only_unless_forced rfl hc
  refine ⟨rfl, c, kept, made, hcomputers, hkept, hall, ?_, hasked.imp fun _ _ hm => hm.2.2⟩
  rw [hcomputers] at hmounts
  have hthese : c.mounts.mounts.map (fun m => (m.point, m.readOnly)) = _ := List.singleton_inj.mp hmounts
  rw [hall, List.map_append] at hthese
  exact (List.cons.inj hthese).2

end Host

end ComputerHost

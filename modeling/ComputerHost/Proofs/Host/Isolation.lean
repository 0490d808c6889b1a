import ComputerHost.Proofs.Host.Incident

/-!
# Computers are isolated

What a computer does and what becomes of it depends on its own incidents, but not on those of another
computer that it has no devices in common with (`computers_isolated`). The one thing that it may notice of
others is the numbers of its timers, and those keep their order.

Computers have more in common than devices: boots read files, and settings are saved to files. So boots
must not read what the computers save (`Host.BootsApart`), or they may well see it
(`startup_script_not_isolated`). Besides, the failures of the interpreter must not be counted over all
computers (`Faults.Steady`), and a store must not get its directory by the way (`ConfigStore.Ready`).

Results:
1. `mirror_self`, `Mirror.looksLike`: what a computer is like on a host.
2. `computers_isolated`: two runs with the same incidents of a computer, a run with these alone, and
   incidents of two computers in either order.
-/

namespace ComputerHost

/-- A line that begins in another way than lines about timers has no counterpart but itself. -/
theorem LineAlike.eq_of_head {ρ : Renaming} {line line' : String} (hl : LineAlike ρ line line')
    (hs : line.toList.head? ≠ some 't') (hr : line.toList.head? ≠ some 'e') : line' = line := by
  cases hl with
  | same => rfl
  | started => exact absurd (by rw [String.toList_append]; rfl) hs
  | received => exact absurd (by rw [String.toList_append]; rfl) hr

namespace Host

/-- What is attached to a computer, and the device that holds it, are devices from a pool. -/
structure KeepsTo (h : Host) (who : Handle) (pool : String → Prop) : Prop where
  sides : ∀ p ∈ h.sidesOf who, pool p.2
  device : ∀ {session program request device warned},
    h.stage? who = some (.held session program request device warned) → pool device
  unlinked : ∀ name, pool name → h.link? name = none

/-- A computer is the same on two hosts, but for the numbers of its timers. -/
structure LooksLike (who : Handle) (pool : String → Prop) (ρ : Renaming) (h h' : Host) : Prop where
  transcript : List.Forall₂ (LineAlike ρ) (h.transcript who.id) (h'.transcript who.id)
  computer : Option.Rel (Computer.Alike pool ρ) (h.computer? who) (h'.computer? who)
  stage : Option.Rel (Stage.Alike pool ρ) (h.stage? who) (h'.stage? who)
  devices : ∀ name, pool name → h'.peripheral? name = h.peripheral? name
  /-- The computer's timers in the service. -/
  pending : List.Forall₂ (TimerEntry.Alike ρ) (h.timers.pending.filter (·.owner == who))
    (h'.timers.pending.filter (·.owner == who))
  /-- The computer's timers that are to be delivered. -/
  due : List.Forall₂ (TimerEntry.Alike ρ) (h.due.filter (·.owner == who))
    (h'.due.filter (·.owner == who))
  /-- The timer that is on its way to the computer. -/
  firing : List.Forall₂ (TimerEntry.Alike ρ) (h.firing.toList.filter (·.owner == who))
    (h'.firing.toList.filter (·.owner == who))
  settings : h'.store.load h'.tree who.id = h.store.load h.tree who.id

section
variable {W W' : Ward} {ρ ρ' : Renaming} {h h' : Host}

/-! ## 1. What a computer is like -/

theorem Stage.Alike.self {pool : String → Prop} (ρ : Renaming) (stage : Stage)
    (hd : ∀ {session program request device warned},
      stage = .held session program request device warned → pool device) :
    stage.Alike pool ρ stage := by
  have hsessions (session : Option Session) : Option.Rel Session.Alike session session := by
    cases session with
    | none => exact .none
    | some session => exact .some (.refl session)
  cases stage with
  | betweenBoots => exact .betweenBoots
  | booting todo session => exact .booting todo (hsessions session)
  | resuming session args warned => exact .resuming warned (.refl session) (.same args)
  | executing session program warned => exact .executing warned (.refl session) (.refl program)
  | held session program request device warned =>
    exact .held request warned (.refl session) (.refl program) (hd rfl)
  | suspended session values warned => exact .suspended values warned (.refl session)
  | waiting session filter deadline warned => exact .waiting filter deadline warned (.refl session)
  | leaving session ending => exact .leaving ending (hsessions session)
  | ended ending => exact .ended ending
  | stopping => exact .stopping
  | tearingDown todo => exact .tearingDown todo
  | gone => exact .gone

/-- To begin with every timer stands for itself. -/
def sameTimers (h : Host) : Renaming := fun i i' => i' = i ∧ i.number < h.counters.timer

theorem alike_own (W : Ward) (ha : TimersApart h) {entries : List TimerEntry}
    (hsub : entries ⊆ h.scheduled) :
    List.Forall₂ (TimerEntry.Alike (sameTimers h)) (W.own entries) (W.own entries) :=
  List.forall₂_same.mpr fun e he =>
    ⟨⟨rfl, ha.drawn _ _ (.inr ⟨e, hsub (mem_own.mp he).1, rfl, rfl⟩)⟩, .same e.event⟩

/-- A host mirrors itself for a computer that keeps to devices of its own. -/
theorem mirror_self (W : Ward) (hk : KeepsTo W.start W.who W.pool) (ha : TimersApart W.start) :
    Mirror W (sameTimers W.start) W.start W.start where
  increasing := by
    rintro i _ j _ ⟨rfl, -⟩ ⟨rfl, -⟩
    exact .rfl
  setup := rfl
  setup' := rfl
  clock := rfl
  terminals := rfl
  computer := by
    have hhas {id : TimerId} (hid : W.start.Owns W.who id ∨ W.start.debounceOf? W.who = some id) :
        sameTimers W.start id id :=
      ⟨rfl, ha.drawn _ _ (.inl hid)⟩
    have hsides := hk.sides
    unfold Owns timersOf takenTimersOf debounceOf? at hhas
    unfold sidesOf at hsides
    cases hc : W.start.computer? W.who with
    | none => exact .none
    | some c =>
      rw [hc] at hhas hsides
      refine .some (@Computer.Alike.mk _ _ c c.events.toList c.timers c.takenTimers c.debounce
        ?_ ?_ ?_ ?_ hsides)
      · exact List.forall₂_same.mpr fun e _ => .same e
      · exact List.forall₂_same.mpr fun id hid => hhas (.inl (.inl hid))
      · exact List.forall₂_same.mpr fun id hid => hhas (.inl (.inr hid))
      · cases hd : c.debounce with
        | none => exact .none
        | some id => exact .some (hhas (.inr hd))
  stage := by
    cases hs : W.start.stage? W.who with
    | none => exact .none
    | some stage => exact .some (Stage.Alike.self _ stage fun heq => hk.device (heq ▸ hs))
  transcript := lines_refl ..
  devices _ _ := rfl
  unlinked := hk.unlinked
  registered := rfl
  freed := .rfl
  pending := alike_own W ha (List.subset_append_left ..)
  due := alike_own W ha (List.subset_append_of_subset_right _ (List.subset_append_left ..))
  firing := alike_own W ha (List.subset_append_of_subset_right _ (List.subset_append_right ..))
  cancelled e _ i hi := by rw [hi.1]
  freedTimers e _ i hi := by rw [hi.1]
  drawn i i' hi := ⟨hi.2, hi.1 ▸ hi.2⟩
  stores := ⟨[], [], ⟨rfl, nofun⟩, ⟨rfl, nofun⟩, rfl⟩

/-- What a computer has to do with a host that is mirrored. -/
theorem Mirror.looksLike (hm : Mirror W ρ h h')
    (hready : W.start.store.Ready W.start.tree W.who.id) : LooksLike W.who W.pool ρ h h' := by
  refine ⟨hm.transcript, hm.computer, hm.stage, hm.devices, hm.pending, hm.due, hm.firing, ?_⟩
  have hload {store : ConfigStore} {tree : FileTree} {saved : List (UInt32 × ComputerConfig)}
      (hs : W.Saves saved (store, tree)) : store.load tree W.who.id =
        (W.start.store.saveAll W.start.tree (saved.filter (·.1 = W.who.id))).1.load
          (W.start.store.saveAll W.start.tree (saved.filter (·.1 = W.who.id))).2 W.who.id := by
    rw [← ConfigStore.load_saveAll hready, ← hs.kept]
  obtain ⟨saved, saved', hs, hs', heq⟩ := hm.stores
  rw [hload hs, hload hs', heq]

/-- A computer is the same on two hosts, but for the numbers of its timers, which keep their order. -/
def SameTo (who : Handle) (pool : String → Prop) (h h' : Host) : Prop :=
  ∃ ρ : Renaming, ρ.Increasing ∧ LooksLike who pool ρ h h'

/-- A run of a host in which nothing happens but to two computers. -/
structure Interleaves (h : Host) (a b : Handle) (pool pool' : String → Prop) (xs : List Incident)
    (g : Host) : Prop where
  between : ∀ x ∈ xs, x.Between a b pool pool'
  run : h.run? xs = some g

end

/-! ## 2. Isolation -/

/-- Two runs with the same incidents of a computer. -/
theorem sameTo_of_share {W W' : Ward} {g g' : Host} {xs xs' : List Incident} (hw : W.Opposite W')
    (hs : Sound W W' W.start) (hready : W.start.store.Ready W.start.tree W.who.id)
    (hi : W.start.Interleaves W.who W'.who W.pool W'.pool xs g)
    (hi' : W.start.Interleaves W.who W'.who W.pool W'.pool xs' g')
    (hshare : xs'.filter (·.isFor W.who) = xs.filter (·.isFor W.who)) : SameTo W.who W.pool g g' := by
  obtain ⟨ρ, hm⟩ := mirrors_run hw hs hs hs.own hi.between hi'.between hshare hi.run hi'.run
  exact ⟨ρ, hm.increasing, hm.looksLike hready⟩

theorem filter_swapped {p : Incident → Bool} {x y : Incident} (hp : p x = false ∨ p y = false)
    (xs : List Incident) : (xs ++ [y, x]).filter p = (xs ++ [x, y]).filter p := by
  rw [List.filter_append, List.filter_append]
  rcases hp with hp | hp <;> simp [List.filter_cons, hp]

/-- Computers are isolated: (1) two runs with the same incidents of a computer leave it the same; (2) for
every run there is one with these incidents alone, but that timers of others are delivered when they stand
before its own; (3) incidents of two computers commute, unless both are parts of deliveries. -/
theorem computers_isolated {setup : HostSetup} {tree : FileTree} {store : ConfigStore}
    {past : List (Host × Change)} {h : Host} (he : Evolves (.new setup tree store) past h)
    {a b : Handle} (hids : a.id ≠ b.id) {pool pool' : String → Prop}
    (hpools : ∀ name, pool name → ¬pool' name) (hka : h.KeepsTo a pool) (hkb : h.KeepsTo b pool')
    (hsteady : h.setup.faults.Steady) (hboots : h.BootsApart fun id => id = a.id ∨ id = b.id)
    (hready : ∀ id, id = a.id ∨ id = b.id → h.store.Ready h.tree id) :
    (∀ xs xs' g g', h.Interleaves a b pool pool' xs g → h.Interleaves a b pool pool' xs' g' →
      xs'.filter (·.isFor b) = xs.filter (·.isFor b) → SameTo b pool' g g') ∧
    (∀ xs g, h.Interleaves a b pool pool' xs g → ∃ alone g', h.Interleaves a b pool pool' alone g' ∧
      (∀ x ∈ alone, x.isFor b = true ∨ x.delivers = true) ∧
      alone.filter (·.isFor b) = xs.filter (·.isFor b)) ∧
    ∀ xs x y g, x.who? = some a → y.who? = some b → x.delivers = false ∨ y.delivers = false →
      h.Interleaves a b pool pool' (xs ++ [x, y]) g →
      ∃ g', h.Interleaves a b pool pool' (xs ++ [y, x]) g' ∧ SameTo a pool g g' ∧ SameTo b pool' g g' := by
  have hapart := timersApart_of_evolves he (timersApart_new ..)
  let W : Ward := ⟨b, a, pool', h, hids, hsteady, fun saved hs => hboots saved fun s hmem =>
    (hs s hmem).symm⟩
  let W' : Ward := ⟨a, b, pool, h, hids.symm, hsteady, hboots⟩
  have hw : W.Opposite W' := ⟨rfl, rfl, hpools⟩
  have hs : Sound W W' h := ⟨hapart, ⟨_, mirror_self W hkb hapart⟩, ⟨_, mirror_self W' hka hapart⟩⟩
  have hs' : Sound W' W h := ⟨hapart, hs.other, hs.own⟩
  have hturned {xs : List Incident} {g : Host} (hi : h.Interleaves a b pool pool' xs g) :
      h.Interleaves b a pool' pool xs g :=
    ⟨fun x hx => between_symm (hi.between x hx), hi.run⟩
  refine ⟨fun xs xs' g g' hi hi' hshare => ?_, fun xs g hi => ?_, fun xs x y g hx hy hd hi => ?_⟩
  · exact sameTo_of_share hw hs (hready b.id (.inr rfl)) (hturned hi) (hturned hi') hshare
  · obtain ⟨alone, g', halone, hshare, hr⟩ := exists_alone hw hs hs hs.own (hturned hi).between hi.run
    refine ⟨alone, g', ⟨fun x hx => ?_, hr⟩, halone, hshare⟩
    rcases halone x hx with hfor | hd
    · have hmem : x ∈ xs.filter (·.isFor b) := hshare ▸ List.mem_filter.mpr ⟨hx, hfor⟩
      exact hi.between x (List.mem_of_mem_filter hmem)
    · exact between_of_delivers hd
  · obtain ⟨g₀, hr, hlast⟩ := run?_append.mp hi.run
    obtain ⟨g₁, hgx, hlast⟩ := run?_cons.mp hlast
    obtain ⟨g₂, hgy, hlast⟩ := run?_cons.mp hlast
    have hbefore (z : Incident) (hz : z ∈ xs) := hi.between z (List.mem_append_left _ hz)
    have hbx := hi.between x (List.mem_append_right _ List.mem_cons_self)
    have hby := hi.between y (List.mem_append_right _ (List.mem_cons_of_mem _ List.mem_cons_self))
    obtain ⟨h₁, h₂, hh₁, hh₂⟩ := exists_swapped hw.symm (sound_run hw.symm hs' hbefore hr) hbx hby hx hy
      hd hgx hgy
    have hi' : h.Interleaves a b pool pool' (xs ++ [y, x]) h₂ := by
      refine ⟨fun z hz => hi.between z ?_, run?_append.mpr ⟨g₀, hr, run?_cons.mpr ⟨h₁, hh₁,
        run?_cons.mpr ⟨h₂, hh₂, rfl⟩⟩⟩⟩
      simp only [List.mem_append, List.mem_cons] at hz ⊢
      tauto
    have hne : a ≠ b := fun heq => hids (congrArg Handle.id heq)
    refine ⟨h₂, hi', ?_, ?_⟩
    · exact sameTo_of_share hw.symm hs' (hready a.id (.inl rfl)) hi hi'
        (filter_swapped (.inr (by simpa [Incident.isFor, hy, W'] using hne.symm)) xs)
    · exact sameTo_of_share hw hs (hready b.id (.inr rfl)) (hturned hi) (hturned hi')
        (filter_swapped (.inl (by simpa [Incident.isFor, hx, W] using hne)) xs)

theorem bootsApart_of_memory {h : Host} {kept : List (UInt32 × ComputerConfig)}
    (hs : h.store = .memory kept) (ids : UInt32 → Prop) : h.BootsApart ids := by
  intro saved _
  have htree : (h.store.saveAll h.tree saved).2 = h.tree := by
    rw [hs]
    obtain ⟨later, -, heq, -⟩ := ConfigStore.lookup_saveAll h.tree kept 0 saved
    rw [heq]
  rw [htree]
  exact ⟨rfl, rfl⟩

theorem Evolves.setup {h₀ h : Host} {trace : List (Host × Change)} (he : Evolves h₀ trace h) :
    h.setup = h₀.setup := by
  induction he with
  | refl => rfl
  | change _ ih => exact (differs_on _ _).setup.trans ih
  | quiet _ hq ih => exact hq.setup.trans ih

theorem steady_none : Faults.none.Steady :=
  ⟨fun _ _ => rfl, fun _ _ => rfl, fun _ _ => rfl⟩

/-- A computer that is not in a program keeps to what is attached to it. -/
theorem keepsTo_of_idle {h : Host} {who : Handle} {pool : String → Prop}
    (hsides : ∀ p ∈ h.sidesOf who, pool p.2) (hidle : (h.stage? who).any Stage.isInProgram = false)
    (hunlinked : ∀ name, pool name → h.link? name = none) : h.KeepsTo who pool := by
  refine ⟨hsides, fun hs => ?_, hunlinked⟩
  rw [hs] at hidle
  cases hidle

def firstOne : Handle := ⟨1, 1⟩

def secondOne : Handle := ⟨2, 2⟩

def vacant : Host := .new (.standard HostConfig.default) ⟨[(["rom"], .directory)], []⟩ default

def movingIn : List Change :=
  [.spawn 1 false, .spawn 2 false, .supply "lamp" (.device ⟨"fake", [], 0, 0, 0, 0⟩),
    .supply "horn" (.device ⟨"fake", [], 0, 0, 0, 0⟩), .attach firstOne "left" "lamp",
    .attach secondOne "left" "horn"]

/-- Two computers, each with a device of its own. -/
def neighbourly : Host := movingIn.foldl (fun h x => x.on h) vacant

theorem evolves_neighbourly : Evolves vacant (vacant.traceOf movingIn) neighbourly :=
  evolves_traceOf vacant movingIn

/-- A timer of the second computer, from its start to its delivery. -/
def ringing : List Incident :=
  [.errand secondOne (.request (.startTimer 5)), .wait 5, .sweep, .resolve secondOne, .fire secondOne]

/-- The same with a timer of the first computer. -/
def ringingTogether : List Incident :=
  [.errand firstOne (.request (.startTimer 5)), .errand secondOne (.request (.startTimer 5)),
    .wait 5, .sweep, .resolve firstOne, .fire firstOne, .resolve secondOne, .fire secondOne]

theorem between_ringing : ∀ x ∈ ringing ++ ringingTogether,
    x.Between firstOne secondOne (· = "lamp") (· = "horn") := by
  simp only [ringing, ringingTogether, List.cons_append, List.nil_append, List.forall_mem_cons]
  exact ⟨.inr ⟨rfl, trivial⟩, trivial, trivial, trivial, trivial, .inl ⟨rfl, trivial⟩,
    .inr ⟨rfl, trivial⟩, trivial, trivial, trivial, trivial, trivial, trivial, nofun⟩

/-- The timers of two computers ring. That of the second one has another number than if it were alone,
and that is all. -/
theorem computers_isolated_ringing : ∃ g g', neighbourly.run? ringing = some g ∧
    neighbourly.run? ringingTogether = some g' ∧
    g.queue secondOne = [⟨"peripheral", [.text "left"]⟩, timerEvent ⟨1⟩] ∧
    g'.queue secondOne = [⟨"peripheral", [.text "left"]⟩, timerEvent ⟨2⟩] ∧
    SameTo secondOne (· = "horn") g g' := by
  have hstore : neighbourly.store = .memory [] := by decide +kernel
  have hruns : (neighbourly.run? ringing).any (fun g =>
      g.queue secondOne == [⟨"peripheral", [.text "left"]⟩, timerEvent ⟨1⟩]) = true := by
    decide +kernel
  have hruns' : (neighbourly.run? ringingTogether).any (fun g =>
      g.queue secondOne == [⟨"peripheral", [.text "left"]⟩, timerEvent ⟨2⟩]) = true := by
    decide +kernel
  obtain ⟨g, hr, hq⟩ := (Option.any_eq_true _ _).mp hruns
  obtain ⟨g', hr', hq'⟩ := (Option.any_eq_true _ _).mp hruns'
  have hlamp : neighbourly.KeepsTo firstOne (· = "lamp") := by
    refine keepsTo_of_idle (by decide +kernel) (by decide +kernel) ?_
    rintro _ rfl
    decide +kernel
  have hhorn : neighbourly.KeepsTo secondOne (· = "horn") := by
    refine keepsTo_of_idle (by decide +kernel) (by decide +kernel) ?_
    rintro _ rfl
    decide +kernel
  have hsteady : neighbourly.setup.faults.Steady := by
    rw [evolves_neighbourly.setup]
    exact steady_none
  obtain ⟨hsame, -⟩ := computers_isolated evolves_neighbourly (by decide : firstOne.id ≠ secondOne.id)
    (by rintro _ rfl; decide) hlamp hhorn hsteady (bootsApart_of_memory hstore _)
    (fun id _ => by rw [hstore]; trivial)
  refine ⟨g, g', hr, hr', eq_of_beq hq, eq_of_beq hq', hsame ringing ringingTogether g g' ?_ ?_ rfl⟩
  · exact ⟨fun x hx => between_ringing x (List.mem_append_left _ hx), hr⟩
  · exact ⟨fun x hx => between_ringing x (List.mem_append_right _ hx), hr'⟩

/-- A setup in which the startup script is the file that keeps the settings of the computer with the id 1,
and the boot script shows the startup script. -/
def scriptSetup : HostSetup :=
  { HostSetup.standard
      { HostConfig.default with vanilla := true, startupScript := some "store/1.json" } with
    bios := .embedded "global _STARTUP_SCRIPT", libraries := [], terminals := .headless }

def scriptTree : FileTree := ⟨[(["rom"], .directory), (["store"], .directory)], []⟩

def scriptHost : Host :=
  [Change.spawn 1 false, .spawn 2 false].foldl (fun h x => x.on h)
    (.new scriptSetup scriptTree (.files "store"))

def labelled : ComputerConfig := { ComputerConfig.default with label := some "b" }

/-- The first computer gets a label and is taken down as far as to the saving of its settings. -/
def saving : List Incident :=
  [.errand firstOne (.request (.setLabel "b")), .errand firstOne (.request .shutdown)] ++
    List.replicate 6 (.move firstOne)

/-- The second computer boots and executes its boot script. -/
def reading : List Incident := List.replicate 14 (.move secondOne)

/-- A computer that boots from a startup script among the settings of another one sees what that one has
saved. -/
theorem startup_script_not_isolated : ∃ past g g',
    Evolves (.new scriptSetup scriptTree (.files "store")) past scriptHost ∧
    scriptHost.registry.registered = [firstOne, secondOne] ∧ firstOne.id ≠ secondOne.id ∧
    scriptHost.KeepsTo firstOne (fun _ => False) ∧ scriptHost.KeepsTo secondOne (fun _ => False) ∧
    scriptHost.setup.faults.Steady ∧
    (∀ id, id = firstOne.id ∨ id = secondOne.id → scriptHost.store.Ready scriptHost.tree id) ∧
    scriptHost.Interleaves firstOne secondOne (fun _ => False) (fun _ => False) (saving ++ reading) g ∧
    scriptHost.Interleaves firstOne secondOne (fun _ => False) (fun _ => False) reading g' ∧
    reading.filter (·.isFor secondOne) = (saving ++ reading).filter (·.isFor secondOne) ∧
    ¬SameTo secondOne (fun _ => False) g g' := by
  have hevolves : Evolves (.new scriptSetup scriptTree (.files "store")) _ scriptHost :=
    evolves_traceOf _ [.spawn 1 false, .spawn 2 false]
  have hidle (who : Handle) (hsides : scriptHost.sidesOf who = [])
      (hstage : (scriptHost.stage? who).any Stage.isInProgram = false) :
      scriptHost.KeepsTo who (fun _ => False) :=
    keepsTo_of_idle (hsides ▸ nofun) hstage nofun
  have hstore : scriptHost.store = .files "store" := by decide +kernel
  have hbetween : ∀ x ∈ saving ++ reading, x.Between firstOne secondOne (fun _ => False) fun _ => False := by
    simp only [saving, reading, List.mem_append, List.mem_cons, List.mem_replicate]
    rintro x (((rfl | rfl | h) | ⟨-, rfl⟩) | ⟨-, rfl⟩)
    · exact .inl ⟨rfl, trivial⟩
    · exact .inl ⟨rfl, trivial⟩
    · cases h
    · exact .inl rfl
    · exact .inr rfl
  have hshown : (scriptHost.run? (saving ++ reading)).any (fun g =>
      g.transcript 2 == ["global _STARTUP_SCRIPT = " ++ labelled.toText]) = true := by
    decide +kernel
  have hmissing : (scriptHost.run? reading).any (fun g =>
      g.transcript 2 == ["global _STARTUP_SCRIPT = nil"]) = true := by
    decide +kernel
  obtain ⟨g, hr, hshown⟩ := (Option.any_eq_true _ _).mp hshown
  obtain ⟨g', hr', hmissing⟩ := (Option.any_eq_true _ _).mp hmissing
  refine ⟨_, g, g', hevolves, by decide +kernel, by decide, hidle _ (by decide +kernel) (by decide +kernel),
    hidle _ (by decide +kernel) (by decide +kernel), ?_, ?_, ⟨hbetween, hr⟩,
    ⟨fun x hx => hbetween x (List.mem_append_right _ hx), hr'⟩, rfl, ?_⟩
  · rw [hevolves.setup]
    exact steady_none
  · rw [hstore]
    exact fun id _ => ConfigStore.ready_of_stands
      (FileTree.stands_of_isDirectory (by decide +kernel) rfl (by decide +kernel))
  · rintro ⟨ρ, -, hlike⟩
    have hlines : List.Forall₂ (LineAlike ρ) (g.transcript 2) (g'.transcript 2) := hlike.transcript
    rw [eq_of_beq hshown, eq_of_beq hmissing] at hlines
    have heq := (List.forall₂_cons.mp hlines).1.eq_of_head (by decide +kernel) (by decide +kernel)
    exact absurd heq (by decide +kernel)

end Host

end ComputerHost

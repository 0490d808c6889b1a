import ComputerHost.Proofs.Host.Aspect

/-!
# Footprints

What each function of the host touches (`Differs`), one lemma for each of them.

Results:
1. `differs_queueEvent`, `differs_startTimer`, `differs_attach`, …: events, timers and peripherals.
2. `differs_spawn`, `differs_teardownStep`: how computers come and go.
3. `quiet_bootStep`, `quiet_log`, …: what touches nothing.
-/

namespace ComputerHost.Host

section
variable {at₁ : Aspect → Prop} {h h' : Host} {w : Handle}

/-! ## 1. Requests, timers and peripherals -/

theorem differs_queueEvent (h : Host) (w : Handle) (e : Event) :
    Differs (· = .events w) h (h.queueEvent w e) := by
  refine differs_modify h w _ (fun _ => rfl) fun x hw hx c => ?_
  cases x with
  | events v => exact absurd (by cases hw; rfl) hx
  | _ => trivial

theorem differs_setQueue (h : Host) (w : Handle) (events : List Event) :
    Differs (· = .events w) h (h.setQueue w events) := by
  refine differs_modify h w _ (fun _ => rfl) fun x hw hx c => ?_
  cases x with
  | events v => exact absurd (by cases hw; rfl) hx
  | _ => trivial

/-- Changes of the run state alone. -/
theorem differs_runState {f : Computer → Computer}
    (hf : ∀ c, f c = { c with runState := (f c).runState }) (h : Host) (w : Handle) :
    Differs (· = .runState w) h (h.modify w f) := by
  refine differs_modify h w f (fun c => ?_) fun x hw hx c => ?_
  · rw [hf c]
  · cases x with
    | runState v => exact absurd (by cases hw; rfl) hx
    | events | config | timers | taken | debounce | sides | connections | finalizers =>
      unfold Aspect.Same
      rw [hf c]
    | _ => trivial

theorem differs_shutdown (h : Host) (w : Handle) :
    Differs (· = .runState w) h (h.modify w Computer.shutdown) :=
  differs_runState (fun _ => rfl) h w

theorem differs_reboot (h : Host) (w : Handle) :
    Differs (· = .runState w) h (h.modify w Computer.reboot) := by
  refine differs_runState (fun c => ?_) h w
  rw [Computer.reboot_frame]

theorem differs_finish (h : Host) (w : Handle) :
    Differs (· = .runState w) h (h.modify w Computer.finish) := by
  refine differs_runState (fun c => ?_) h w
  rw [Computer.finish_frame]

theorem differs_begin (h : Host) (w : Handle) :
    Differs (· = .runState w) h (h.update w Computer.beginBoot false).2 := by
  unfold update
  cases h.computer? w with
  | none => exact .refl _ h
  | some c =>
    refine differs_runState (fun c => ?_) h w
    rw [Computer.beginBoot_frame]

theorem differs_setLabel (h : Host) (w : Handle) (text : String) :
    Differs (· = .config w) h
      (h.modify w fun c => { c with config := { c.config with label := some text } }) := by
  refine differs_modify h w _ (fun _ => rfl) fun x hw hx c => ?_
  cases x with
  | config v => exact absurd (by cases hw; rfl) hx
  | _ => trivial

/-- Changes of what of a computer only its thread looks at. -/
theorem quiet_modify {f : Computer → Computer}
    (hf : ∀ c, f c = { c with phase := (f c).phase, breakpoints := (f c).breakpoints,
                              lastCall := (f c).lastCall })
    (h : Host) (w : Handle) : Quiet h (h.modify w f) := by
  refine differs_modify h w f (fun c => ?_) fun x _ _ c => ?_
  · rw [hf c]
  · cases x with
    | runState | events | config | timers | taken | debounce | sides | connections | finalizers =>
      unfold Aspect.Same
      rw [hf c]
    | _ => trivial

theorem differs_schedule (h : Host) (w : Handle) (id : TimerId) (fireAt : Nat) (e : Event) :
    Differs (· = .service) h (h.schedule w id fireAt e) :=
  differs_service h _ h.due h.firing

theorem differs_startTimer (h : Host) (w : Handle) (ms : Nat) :
    Differs (fun x => x = .timers w ∨ x = .service ∨ x = .numbering) h (h.startTimer w ms).2 := by
  have htrack : Differs (fun x => x = .timers w ∨ x = .service ∨ x = .numbering) h
      ({ h with counters := h.counters.newTimer.2 }.modify w (·.trackTimer h.counters.newTimer.1)) := by
    refine ((differs_newTimer h).only (.inr (.inr rfl))).trans ?_
    refine differs_modify _ w _ (fun _ => rfl) fun x hw hx c => ?_
    cases x with
    | timers v => exact absurd (.inl (by cases hw; rfl)) hx
    | _ => trivial
  refine differs_ite (fun _ => htrack.trans ?_) fun _ => htrack
  exact (differs_schedule ..).only (.inr (.inl rfl))

theorem differs_cancelTimer (h : Host) (w : Handle) (id : TimerId) :
    Differs (fun x => x = .timers w ∨ x = .service) h (h.cancelTimer w id).2 := by
  have hdrop : Differs (fun x => x = .timers w ∨ x = .service) h
      (h.update w (·.dropTimer id) false).2 := by
    refine differs_update h w _ _ (fun _ => rfl) fun x hw hx c => ?_
    cases x with
    | timers v => exact absurd (.inl (by cases hw; rfl)) hx
    | _ => trivial
  refine differs_ite (fun _ => hdrop.trans ?_) fun _ => hdrop
  exact (differs_service ..).only (.inr rfl)

theorem differs_debounce (h : Host) (w : Handle) (ms : Nat) (e : Event) :
    Differs (fun x => x = .debounce w ∨ x = .service ∨ x = .numbering) h
      (h.debounce w ms e).2 := by
  have harm : Differs (fun x => x = .debounce w ∨ x = .service ∨ x = .numbering) h
      ({ h with counters := h.counters.newTimer.2 }.update w
        (·.armDebounce h.counters.newTimer.1) none).2 := by
    refine ((differs_newTimer h).only (.inr (.inr rfl))).trans ?_
    refine differs_update _ w _ _ (fun _ => rfl) fun x hw hx c => ?_
    cases x with
    | debounce v => exact absurd (.inl (by cases hw; rfl)) hx
    | _ => trivial
  refine differs_ite (fun _ => harm.trans ?_) fun _ => harm
  exact (differs_service ..).only (.inr (.inl rfl))

theorem differs_sweep (h : Host) : Differs (· = .service) h h.sweep := differs_service ..

theorem differs_resolveDue? (hr : h.resolveDue? = some h') : Differs Aspect.OfResolution h h' := by
  obtain ⟨entry, due, -, -, rfl⟩ := of_resolveDue? hr
  have htaken : Differs Aspect.OfResolution h
      { h with due, firing := (h.registry.resolveTimer entry.id entry.owner).1.map fun _ => entry } :=
    (differs_service h h.timers due _).only trivial
  refine htaken.trans (differs_registry _ _ (fun _ => ?_) (fun hx => absurd trivial hx) fun _ => ?_)
  · unfold Registry.resolveTimer
    dsimp only
    split <;> exact ⟨rfl, rfl⟩
  · unfold Registry.resolveTimer
    dsimp only
    split <;> rfl

theorem differs_fire? (hf : h.fire? = some h') : Differs Aspect.OfFiring h h' := by
  obtain ⟨entry, -, rfl⟩ := Option.map_eq_some_iff.mp hf
  have htaken : Differs Aspect.OfFiring h { h with firing := none } :=
    (differs_service h h.timers h.due none).only trivial
  refine htaken.trans (differs_modify _ _ _ (fun c => ?_) fun x _ hx c => ?_)
  · exact (Computer.grows_timerFired c entry.id entry.event).handle
  · cases x with
    | timers | debounce | events => exact absurd trivial hx
    | runState | config | taken | sides | connections | finalizers =>
      unfold Aspect.Same
      rw [Computer.timerFired_frame]
    | _ => trivial

/-- Everything in a registry but the references stays when one is added. -/
theorem addReference_others (r : Registry) (target referencer : Handle) (side : String) :
    (r.addReference target referencer side).registered = r.registered ∧
      (r.addReference target referencer side).freed = r.freed ∧
      (r.addReference target referencer side).freedTimers = r.freedTimers := by
  unfold Registry.addReference
  dsimp only
  split <;> exact ⟨rfl, rfl, rfl⟩

theorem differs_tellAttached (h : Host) (name : String) (w : Handle) (side : String) :
    Differs (Aspect.OfTelling w) h (h.tellAttached name w side) := by
  have hset (p : Peripheral) (deed : Deed) :
      Differs (Aspect.OfTelling w) h ((h.setPeripheral name p).note w deed) :=
    ((differs_setPeripheral h name p).only trivial).trans
      ((differs_note _ w deed).only rfl)
  unfold tellAttached
  split
  · exact hset _ _
  · next l _ =>
    have hlink := hset (.link { l with binding := some ⟨w, side⟩ }) (.linked name)
    refine differs_ite (fun _ => hlink.trans ?_) fun _ => hlink
    exact (differs_references _ (addReference_others ..)).only trivial
  · exact .refl _ h

theorem differs_tellDetached (h : Host) (name : String) (w : Handle) :
    Differs (Aspect.OfTelling w) h (h.tellDetached name w) := by
  have hset (p : Peripheral) (deed : Deed) :
      Differs (Aspect.OfTelling w) h ((h.setPeripheral name p).note w deed) :=
    ((differs_setPeripheral h name p).only trivial).trans
      ((differs_note _ w deed).only rfl)
  unfold tellDetached
  split
  · exact hset _ _
  · next l _ =>
    have hlink := hset (.link { l with binding := none }) (.unlinked name)
    dsimp only
    split
    · refine differs_ite (fun _ => hlink.trans ?_) fun _ => hlink
      exact Differs.only (y := .references) (differs_references _ ⟨rfl, rfl, rfl⟩) trivial
    · exact hlink
  · exact .refl _ h

/-- Changes of what is at the sides of a computer. -/
theorem differs_sides (h : Host) (w : Handle) (g : Computer → List (String × String)) :
    Differs (· = .sides w) h (h.modify w fun c => { c with peripherals := g c }) := by
  refine differs_modify h w _ (fun _ => rfl) fun x hw hx c => ?_
  cases x with
  | sides v => exact absurd (by cases hw; rfl) hx
  | _ => trivial

theorem Aspect.ofWiring_of_ofTelling {x : Aspect} (hx : x.OfTelling w) : x.OfWiring w := by
  cases x <;> first | exact hx | exact hx.elim

theorem differs_attach (h : Host) (w : Handle) (side name : String) :
    Differs (Aspect.OfWiring w) h (h.attach w side name).2 := by
  unfold attach
  split
  · exact .refl _ h
  · split
    · exact .refl _ h
    · have hside : Differs (Aspect.OfWiring w) h
          (h.modify w fun c => { c with peripherals := c.peripherals ++ [(side, name)] }) :=
        (differs_sides h w _).only rfl
      have htell (h : Host) : Differs (Aspect.OfWiring w) h (h.tellAttached name w side) :=
        (differs_tellAttached ..).mono fun x => Aspect.ofWiring_of_ofTelling
      have hqueue (h : Host) (e : Event) : Differs (Aspect.OfWiring w) h (h.queueEvent w e) :=
        (differs_queueEvent ..).only rfl
      exact (hside.trans (htell _)).trans (hqueue _ _)

theorem differs_detach (h : Host) (w : Handle) (side : String) :
    Differs (Aspect.OfWiring w) h (h.detach w side).2 := by
  unfold detach
  split
  · exact .refl _ h
  · next name _ =>
    have hside : Differs (Aspect.OfWiring w) h
        (h.modify w fun c => { c with peripherals := c.peripherals.filter (·.1 != side) }) :=
      (differs_sides h w _).only rfl
    have htell (h : Host) : Differs (Aspect.OfWiring w) h (h.tellDetached name w) :=
      (differs_tellDetached ..).mono fun x => Aspect.ofWiring_of_ofTelling
    have hqueue (h : Host) (e : Event) : Differs (Aspect.OfWiring w) h (h.queueEvent w e) :=
      (differs_queueEvent ..).only rfl
    exact (hside.trans (htell _)).trans (hqueue _ _)

theorem differs_releasePeripherals (h : Host) (w : Handle) :
    Differs (Aspect.OfWiring w) h (h.releasePeripherals w) := by
  have hempty : Differs (Aspect.OfWiring w) h
      (h.update w (fun c => (c.peripherals.map (·.2), { c with peripherals := [] })) []).2 := by
    refine differs_update h w _ _ (fun _ => rfl) fun x hw hx c => ?_
    cases x with
    | sides v => exact absurd (by cases hw; rfl) hx
    | _ => trivial
  exact hempty.trans (differs_foldl (fun h name =>
    (differs_tellDetached h name w).mono fun x => Aspect.ofWiring_of_ofTelling) _ _)

theorem differs_detachReferences (h : Host) (w : Handle) :
    Differs Aspect.OfAnyWiring h (h.detachReferences w) := by
  have htake : Differs Aspect.OfAnyWiring h
      { h with registry := (h.registry.takeReferences w).2 } :=
    Differs.only (y := .references) (differs_references h ⟨rfl, rfl, rfl⟩) trivial
  refine htake.trans (differs_foldl (fun h r => differs_ite (fun _ => ?_) fun _ => .refl _ h) _ _)
  refine differs_ite (fun _ => ?_) fun _ => .refl _ h
  refine (differs_detach ..).mono fun x hx => ?_
  cases x <;> trivial

theorem differs_addPeripheral (h : Host) (name : String) (p : Peripheral) :
    Differs (· = .peripherals) h (h.addPeripheral name p) :=
  differs_ite (fun _ => .refl _ h) fun _ => differs_peripherals h _

theorem differs_retarget (h : Host) (name : String) (l : Link) (target : Handle) :
    Differs (fun x => x = .peripherals ∨ x = .references) h (h.retarget name l target) := by
  have hset : Differs (fun x => x = .peripherals ∨ x = .references) h
      (h.setPeripheral name (.link { l with target })) :=
    (differs_setPeripheral ..).only (.inl rfl)
  unfold retarget
  dsimp only
  split
  · refine hset.trans (Differs.only (y := .references) ?_ (.inr rfl))
    exact differs_references _ (addReference_others ..)
  · exact hset

/-! ## 2. How computers come and go -/

/-- A new computer has nothing yet. -/
theorem differs_append (h : Host) {c : Computer} (hevents : c.events = EventQueue.empty)
    (htimers : c.timers = []) (htaken : c.takenTimers = []) (hdebounce : c.debounce = none)
    (hsides : c.peripherals = []) (hconnections : (c.connections, c.nextConnection) = ([], 1))
    (hfinalizers : c.finalizers = []) (tree : FileTree) (counters : Counters)
    (hnumber : counters.timer = h.counters.timer) :
    Differs (fun x => x = .roster ∨ x = .tree) h
      { h with tree, counters, computers := h.computers ++ [c] } := by
  have hread (who : Handle) :
      (({ h with tree, counters, computers := h.computers ++ [c] } : Host).computer? who) =
        (h.computer? who).or (if c.handle == who then some c else none) := by
    unfold computer?
    rw [List.find?_append]
    congr 1
    simp [List.find?_cons]
    split <;> simp_all
  have hold (who : Handle) {α : Type} (g : Computer → α) (d : α) (hg : g c = d) :
      ((({ h with tree, counters, computers := h.computers ++ [c] } : Host).computer? who).map
        g).getD d = ((h.computer? who).map g).getD d := by
    rw [hread]
    cases h.computer? who with
    | some _ => rfl
    | none => split <;> simp [hg]
  have hkept (who : Handle) (hsome : (h.computer? who).isSome = true) :
      (({ h with tree, counters, computers := h.computers ++ [c] } : Host).computer? who) =
        h.computer? who := by
    rw [hread]
    obtain ⟨c', hc'⟩ := Option.isSome_iff_exists.mp hsome
    rw [hc']
    rfl
  refine ⟨rfl, Nat.le_refl _, fun who hsome => by rwa [hkept who hsome], fun x hx => ?_⟩
  have hr := agrees_refl x h
  cases x with
  | roster => exact absurd (.inl rfl) hx
  | tree => exact absurd (.inr rfl) hx
  | runState who => exact fun hsome => congrArg (Option.map _) (hkept who hsome)
  | config who => exact fun hsome => congrArg (Option.map _) (hkept who hsome)
  | events who => exact hold who (·.events.toList) [] (by rw [hevents]; rfl)
  | timers who => exact hold who (·.timers) [] htimers
  | taken who => exact hold who (·.takenTimers) [] htaken
  | debounce who => exact hold who (·.debounce) none hdebounce
  | sides who => exact hold who (·.peripherals) [] hsides
  | connections who =>
    exact hold who (fun c => (c.connections, c.nextConnection)) ([], 1) hconnections
  | finalizers who => exact hold who (·.finalizers) [] hfinalizers
  | numbering => exact hnumber
  | _ => exact hr

/-- A construction that fails. -/
theorem differs_of_aborts (ha : Aborts h h') : Differs (· = .tree) h h' := by
  obtain ⟨entries, hjournal, hnone⟩ := ha.journal
  have htree : Differs (· = .tree) h { h with tree := h'.tree } := differs_tree h h'.tree
  rw [ha.rest, hjournal]
  exact htree.quiet ((quiet_unowned _ hnone).trans (quiet_of_visible rfl))

theorem quiet_showDialog (h : Host) (terminal : Option Nat) (title message : String) :
    Quiet h (h.showDialog terminal title message) :=
  quiet_of_visible rfl

/-- What a construction touches. -/
theorem differs_create (h : Host) (id : UInt32) (isDebugger : Bool) :
    Differs (fun x => x = .roster ∨ x = .tree) h (h.create id isDebugger).2 := by
  rcases hc : h.create id isDebugger with ⟨e | w, h'⟩
  · exact (differs_of_aborts (aborts_of_create_error hc).1).only (.inr rfl)
  · obtain ⟨-, terminal, mounts, config, tree, -, -, heq⟩ := made_of_create_ok hc
    have hadded : Differs (fun x => x = .roster ∨ x = .tree) h
        { h with
          tree, counters := (h.counters.newHandle id).2,
          computers := h.computers ++
            [Computer.new w isDebugger terminal mounts config (h.config.dataDir id)] } :=
      differs_append h rfl rfl rfl rfl rfl rfl rfl tree _ rfl
    rw [heq]
    exact hadded.quiet (quiet_of_visible rfl)

theorem differs_start (h : Host) (w : Handle) : Differs (· = .registered) h (h.start w) := by
  have hregister : Differs (· = .registered) h { h with registry := h.registry.insert w } :=
    differs_registry h _ (fun hx => absurd rfl hx) (fun _ => rfl) fun _ => rfl
  exact hregister.quiet (quiet_of_visible rfl)

/-- A new computer is registered and has a directory. -/
theorem differs_spawn (h : Host) (id : UInt32) (isDebugger : Bool) :
    Differs Aspect.OfSpawn h (h.spawn id isDebugger).2 := by
  have hcreate : Differs Aspect.OfSpawn h (h.create id isDebugger).2 :=
    (differs_create h id isDebugger).mono fun x hx => by rcases hx with rfl | rfl <;> trivial
  unfold spawn
  rcases hc : h.create id isDebugger with ⟨made, h₁⟩
  rw [hc] at hcreate
  cases made with
  | ok w => exact hcreate.trans ((differs_start h₁ w).only trivial)
  | error e =>
    refine hcreate.quiet ?_
    unfold reportSpawnError
    exact differs_ite (fun _ => .refl _ h₁) fun _ => quiet_showDialog ..

theorem differs_openConnection (h : Host) (w : Handle) (name : String) :
    Differs (· = .connections w) h (h.openConnection w name).2 := by
  refine differs_update h w _ _ (fun _ => rfl) fun x hw hx c => ?_
  cases x with
  | connections v => exact absurd (by cases hw; rfl) hx
  | _ => trivial

theorem differs_closeConnection (h : Host) (w : Handle) (id : Nat) :
    Differs (fun x => x = .connections w ∨ x = .custody w) h (h.closeConnection w id).2 := by
  have htake : Differs (fun x => x = .connections w ∨ x = .custody w) h
      (h.update w (·.takeConnection id) none).2 := by
    refine differs_update h w _ _ (fun _ => rfl) fun x hw hx c => ?_
    cases x with
    | connections v => exact absurd (.inl (by cases hw; rfl)) hx
    | _ => trivial
  unfold closeConnection
  split
  · next c h₁ hu =>
    rw [hu] at htake
    exact htake.trans ((differs_note h₁ w _).only (.inr rfl))
  · next h₁ hu =>
    rw [hu] at htake
    exact htake

theorem differs_closeConnections (h : Host) (w : Handle) :
    Differs (fun x => x = .connections w ∨ x = .custody w) h (h.closeConnections w) := by
  have htake : Differs (fun x => x = .connections w ∨ x = .custody w) h
      (h.update w Computer.takeConnections []).2 := by
    refine differs_update h w _ _ (fun _ => rfl) fun x hw hx c => ?_
    cases x with
    | connections v => exact absurd (.inl (by cases hw; rfl)) hx
    | _ => trivial
  exact htake.trans (differs_foldl (fun h c => (differs_note h w _).only (.inr rfl)) _ _)

theorem differs_addFinalizer (h : Host) (w : Handle) (name : String) :
    Differs (· = .finalizers w) h (h.addFinalizer w name) := by
  refine differs_modify h w _ (fun _ => rfl) fun x hw hx c => ?_
  cases x with
  | finalizers v => exact absurd (by cases hw; rfl) hx
  | _ => trivial

theorem differs_runFinalizers (h : Host) (w : Handle) :
    Differs (fun x => x = .finalizers w ∨ x = .config w ∨ x = .custody w) h
      (h.runFinalizers w) := by
  have htake : Differs (fun x => x = .finalizers w ∨ x = .config w ∨ x = .custody w) h
      (h.update w (fun c => (c.finalizers, { c with finalizers := [] })) []).2 := by
    refine differs_update h w _ _ (fun _ => rfl) fun x hw hx c => ?_
    cases x with
    | finalizers v => exact absurd (.inl (by cases hw; rfl)) hx
    | _ => trivial
  refine htake.trans (differs_foldl (fun h name => ?_) _ _)
  have hrun : Differs (fun x => x = .finalizers w ∨ x = .config w ∨ x = .custody w) h
      (h.modify w fun c => { c with config := h.setup.finalize name c.config }) := by
    refine differs_modify h w _ (fun _ => rfl) fun x hw hx c => ?_
    cases x with
    | config v => exact absurd (.inr (.inl (by cases hw; rfl))) hx
    | _ => trivial
  exact hrun.trans ((differs_note _ w _).only (.inr (.inr rfl)))

theorem differs_saveConfig (h : Host) (w : Handle) :
    Differs (fun x => x = .tree ∨ x = .store ∨ x = .custody w) h (h.saveConfig w) := by
  unfold saveConfig
  split
  · exact .refl _ h
  · refine Differs.trans ((differs_files h _ _).mono fun x hx => ?_)
      ((differs_note _ w .saved).only (.inr (.inr rfl)))
    exact hx.imp_right .inl

theorem quiet_releaseTerminal (h : Host) (w : Handle) : Quiet h (h.releaseTerminal w) := by
  obtain ⟨-, heq⟩ | ⟨n, t, -, ⟨-, heq⟩ | ⟨-, heq⟩⟩ := releaseTerminal_cases h w <;> rw [heq]
  · exact .refl _ h
  · exact quiet_of_visible rfl
  · have hterminal : Quiet h (h.onTerminal n Terminal.destroy) := quiet_of_visible rfl
    exact hterminal.trans (quiet_note _ w rfl)

theorem differs_takeTimers (h : Host) (w : Handle) :
    Differs (fun x => x = .timers w ∨ x = .taken w) h (h.teardownStep w .takeTimers) := by
  refine differs_modify h w Computer.takeTimers (fun _ => rfl) fun x hw hx c => ?_
  cases x with
  | timers v => exact absurd (.inl (by cases hw; rfl)) hx
  | taken v => exact absurd (.inr (by cases hw; rfl)) hx
  | _ => trivial

theorem differs_invalidateTimers (h : Host) (w : Handle) :
    Differs (fun x => x = .taken w ∨ x = .freedTimers) h (h.teardownStep w .invalidateTimers) := by
  have hempty : Differs (fun x => x = .taken w ∨ x = .freedTimers) h
      (h.update w (fun c => (c.takenTimers, { c with takenTimers := [] })) []).2 := by
    refine differs_update h w _ _ (fun _ => rfl) fun x hw hx c => ?_
    cases x with
    | taken v => exact absurd (.inl (by cases hw; rfl)) hx
    | _ => trivial
  exact hempty.trans (differs_registry _ _ (fun _ => ⟨rfl, rfl⟩) (fun hx => absurd (.inr rfl) hx)
    fun _ => rfl)

theorem differs_cancelDebounce (h : Host) (w : Handle) :
    Differs (fun x => x = .debounce w ∨ x = .service) h (h.teardownStep w .cancelDebounce) := by
  have htake : Differs (fun x => x = .debounce w ∨ x = .service) h
      (h.update w (fun c => (c.debounce, { c with debounce := none })) none).2 := by
    refine differs_update h w _ _ (fun _ => rfl) fun x hw hx c => ?_
    cases x with
    | debounce v => exact absurd (.inl (by cases hw; rfl)) hx
    | _ => trivial
  unfold teardownStep
  dsimp only
  split
  · exact htake.trans ((differs_service ..).only (.inr rfl))
  · exact htake

theorem differs_teardownStep (h : Host) (w : Handle) (step : TeardownStep) :
    Differs (step.Touches w) h (h.teardownStep w step) := by
  cases step with
  | retire | release =>
    exact differs_registry h _ (fun hx => absurd trivial hx) (fun _ => rfl) fun _ => rfl
  | runFinalizers =>
    refine (differs_runFinalizers h w).mono fun x hx => ?_
    rcases hx with rfl | rfl | rfl <;> rfl
  | releaseTerminal => exact (quiet_releaseTerminal h w).mono fun _ hf => hf.elim
  | saveConfig =>
    refine (differs_saveConfig h w).mono fun x hx => ?_
    rcases hx with rfl | rfl | rfl <;> trivial
  | releasePeripherals => exact differs_releasePeripherals h w
  | detachReferences => exact differs_detachReferences h w
  | takeTimers =>
    refine (differs_takeTimers h w).mono fun x hx => ?_
    rcases hx with rfl | rfl <;> rfl
  | invalidateTimers =>
    refine (differs_invalidateTimers h w).mono fun x hx => ?_
    rcases hx with rfl | rfl <;> trivial
  | cancelDebounce =>
    refine (differs_cancelDebounce h w).mono fun x hx => ?_
    rcases hx with rfl | rfl <;> trivial
  | closeConnections =>
    refine (differs_closeConnections h w).mono fun x hx => ?_
    rcases hx with rfl | rfl <;> rfl

/-! ## 3. What touches nothing -/

theorem quiet_setStage (h : Host) (w : Handle) (stage : Stage) : Quiet h (h.setStage w stage) :=
  quiet_of_visible rfl

theorem quiet_log (h : Host) (id : UInt32) (lines : List String) : Quiet h (h.log id lines) := by
  unfold log
  split
  · exact .refl _ h
  · split <;> exact quiet_of_visible rfl

theorem quiet_setPhase (h : Host) (w : Handle) (phase : BootPhase) :
    Quiet h (h.modify w (·.setPhase phase)) :=
  quiet_modify (fun _ => rfl) h w

theorem quiet_showFatal (h : Host) (w : Handle) (n : Nat) (message : String) :
    Quiet h (h.showFatal w n message) := by
  have hterminal : Quiet h (h.onTerminal n (·.showFatal message)) := quiet_of_visible rfl
  exact hterminal.trans (quiet_note _ w rfl)

theorem Announces.quiet (ha : Announces w h h') : Quiet h h' := by
  cases ha with
  | shows => exact quiet_showFatal ..
  | tells => exact quiet_showDialog ..

theorem quiet_takePermit? {name : String} (hp : h.takePermit? name = some h') : Quiet h h' := by
  unfold takePermit? at hp
  split at hp
  · next d hd =>
    split at hp
    · cases hp
    · rw [← Option.some.inj hp]
      exact quiet_setDevice hd _
  · cases hp

theorem quiet_runTasks (h : Host) : Quiet h h.runTasks.2 := by
  have hperform (h : Host) (d : Dialog) : Quiet h (h.perform d) := by
    unfold perform
    split <;> exact quiet_of_visible rfl
  have htaken : Quiet h { h with tasks := h.tasks.runPending.2 } := quiet_of_visible rfl
  exact htaken.trans (differs_foldl hperform _ _)

theorem quiet_clock (h : Host) {moment : Nat} (hle : h.clock ≤ moment) :
    Quiet h { h with clock := moment } := by
  refine ⟨rfl, hle, fun _ hc => hc, fun x _ => ?_⟩
  have hr := agrees_refl x h
  cases x <;> exact hr

/-! ### Boots -/

theorem quiet_setGlobals (h : Host) (w : Handle) (session : Session)
    (globals : List (String × Value)) : Quiet h (h.setGlobals w session globals).1 := by
  unfold setGlobals
  induction globals generalizing h session with
  | nil => exact .refl _ h
  | cons global rest ih => exact (quiet_note h w rfl).trans (ih ..)

theorem quiet_reinitialized (h : Host) (w : Handle) (session : Session) (name : String) :
    Quiet h (h.reinitialize w session name).1 := by
  unfold reinitialize
  split
  · next d hd =>
    exact ((quiet_setDevice hd _).trans (quiet_note _ w rfl)).trans (quiet_setGlobals ..)
  · exact .refl _ h

theorem quiet_openState (h : Host) : Quiet h h.openState.2 := by
  unfold openState
  dsimp only
  split <;> exact quiet_of_visible rfl

theorem quiet_openCoroutine (h : Host) (w : Handle) (session : Session) :
    Quiet h (h.openCoroutine w session).2 := by
  unfold openCoroutine
  dsimp only
  split <;> exact quiet_note _ w rfl

theorem quiet_loadBios (h : Host) (w : Handle) (session : Session) :
    Quiet h (h.loadBios w session).2 := by
  have hphase : Quiet h (h.modify w (·.setPhase .loadingBios)) := quiet_setPhase ..
  unfold loadBios
  dsimp only
  split
  · exact hphase
  · split <;> exact hphase.trans (quiet_note _ w rfl)

/-- Every move of a boot but the one that empties the queue. -/
theorem quiet_stepInSession (h : Host) (w : Handle) (session : Session) {step : BootStep}
    (hne : step ≠ .clearEvents) : Quiet h (h.stepInSession w session step).2 := by
  cases step with
  | clearEvents => exact absurd rfl hne
  | openCoroutine => exact quiet_openCoroutine h w session
  | reinitializePeripherals =>
    unfold stepInSession
    dsimp only
    generalize ((h.computer? w).map fun c => c.peripherals.map (·.2)).getD [] = names
    induction names generalizing h session with
    | nil => exact .refl _ h
    | cons name rest ih => exact (quiet_reinitialized h w session name).trans (ih ..)
  | bindComputer | openLibrary | chooseLoader => exact quiet_note _ w rfl
  | openBase => exact (quiet_setPhase h w .loadingLibraries).trans (quiet_note _ w rfl)
  | showPluginFailures =>
    unfold stepInSession
    dsimp only
    split
    · exact .refl _ h
    · exact quiet_note _ w rfl
  | loadPlugins =>
    unfold stepInSession
    dsimp only
    split
    · exact .refl _ h
    · exact (quiet_note _ w rfl).trans (quiet_setGlobals ..)
  | setGlobals => exact quiet_setGlobals h w session (h.hostGlobals (h.terminalOf? w).isNone)
  | loadBios => exact quiet_loadBios h w session
  | enterProgram => exact quiet_setPhase h w .running
  | resetTerminal | openState => exact .refl _ h

theorem quiet_bootStep (h : Host) (w : Handle) (session : Option Session) {step : BootStep}
    (hne : step ≠ .clearEvents) : Quiet h (h.bootStep w session step).2 := by
  unfold bootStep
  split
  · split
    · next n _ _ =>
      have hterminal : Quiet h (h.onTerminal n Terminal.reset) := quiet_of_visible rfl
      exact hterminal.trans (quiet_note _ w rfl)
    · exact .refl _ h
  · exact quiet_openState h
  · exact quiet_stepInSession h w _ hne
  · exact .refl _ h

theorem quiet_reportBootFailure (h : Host) (w : Handle) (e : BootError) :
    Quiet h (h.reportBootFailure w e) :=
  (announces_reportBootFailure h w e).quiet

end

end ComputerHost.Host

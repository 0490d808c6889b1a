import ComputerHost.Proofs.Host.Reflection

/-!
# Moves on hosts that mirror each other

A thread can move on one of two hosts that mirror each other for its computer if it can on the other, and
the hosts mirror each other afterwards (`Mirror.move?`). The same goes for what is asked of the computer
from outside (`Errand`).

Results:
1. `Mirror.leave`, `Mirror.judge`, `Mirror.await`: between programs.
2. `Mirror.teardownStep`: teardowns.
3. `Mirror.move?`: one move of the thread.
4. `Mirror.perform`: requests from outside.
-/

namespace ComputerHost

/-- What can be asked of a computer from outside. -/
inductive Errand where
  /-- What programs may ask for. -/
  | request (request : Script.Request)
  /-- Cancel one of the running timers, by its place among them. -/
  | cancelTimer (place : Nat)
  | debounce (ms : Nat) (e : Event)
  | attach (side name : String)
  | detach (side : String)
  | connect (name : String)
  | disconnect (id : Nat)
  | disconnectAll
  | addFinalizer (name : String)
  /-- Let a call that waits for a device go on. -/
  | permit (device : String)

namespace Errand

/-- The host after an errand to a computer. -/
def on (who : Handle) (h : Host) : Errand → Host
  | request r => (h.serve who r).2
  | cancelTimer place =>
    match (h.timersOf who)[place]? with
    | some id => (h.cancelTimer who id).2
    | none => h
  | debounce ms e => (h.debounce who ms e).2
  | attach side name => (h.attach who side name).2
  | detach side => (h.detach who side).2
  | connect name => (h.openConnection who name).2
  | disconnect id => (h.closeConnection who id).2
  | disconnectAll => h.closeConnections who
  | addFinalizer name => h.addFinalizer who name
  | permit device => h.givePermit device

/-- An errand that has to do with no other devices than those of a pool. -/
def Within (pool : String → Prop) : Errand → Prop
  | attach _ name | permit name => pool name
  | _ => True

end Errand

namespace Host

section
variable {W : Ward} {ρ : Renaming} {h h' h₁ h₁' h₂ : Host} {i i' : TimerId} {session session' : Session}

/-! ## 1. Between programs -/

/-- Taking something from the computer that is the same in both hosts. -/
theorem Mirror.take {α : Type} (hm : Mirror W ρ h h') (f : Computer → α × Computer) (other : α)
    (hf : ∀ c, (f c).2.handle = c.handle)
    (ha : ∀ c c', c.Alike W.pool ρ c' → (f c').1 = (f c).1 ∧ (f c).2.Alike W.pool ρ (f c').2) :
    (h'.update W.who f other).1 = (h.update W.who f other).1 ∧
      Mirror W ρ (h.update W.who f other).2 (h'.update W.who f other).2 :=
  hm.update (r := fun x y => y = x) f f other hf hf ha rfl

theorem Mirror.closeConnections (hm : Mirror W ρ h h') :
    Mirror W ρ (h.closeConnections W.who) (h'.closeConnections W.who) := by
  have htake := hm.take Computer.takeConnections [] (fun _ => rfl) (by
    rintro c _ ⟨hevents, htimers, htaken, hdebounce, hsides⟩
    exact ⟨rfl, hevents, htimers, htaken, hdebounce, hsides⟩)
  unfold Host.closeConnections
  generalize h.update W.who Computer.takeConnections [] = x at htake ⊢
  generalize h'.update W.who Computer.takeConnections [] = x' at htake ⊢
  obtain ⟨closed, h₁⟩ := x
  obtain ⟨closed', h₁'⟩ := x'
  obtain ⟨rfl, hm₁⟩ := htake
  exact List.foldl_rel (r := Mirror W ρ) hm₁ fun c _ _ _ hm => hm.note ..

theorem Mirror.leave (hm : Mirror W ρ h h') {session session' : Option Session}
    (hs : Option.Rel Session.Alike session session') :
    Mirror W ρ (h.leave W.who session) (h'.leave W.who session') := by
  cases hs with
  | none => exact hm
  | some hs =>
    obtain ⟨-⟩ := hs
    exact List.foldl_rel (r := Mirror W ρ) hm.closeConnections fun l _ _ _ hm => hm.note ..

/-- The end of a boot, and what comes next. -/
theorem Mirror.judge (hm : Mirror W ρ h h') (ending : Ending) :
    Mirror W ρ (h.judge W.who ending) (h'.judge W.who ending) := by
  have hgo {h h' : Host} (hm : Mirror W ρ h h') :
      Mirror W ρ (h.judge W.who .ordinary) (h'.judge W.who .ordinary) := by
    refine .ite ?_ (fun _ => (hm.setPhase .rebooting).setStage .betweenBoots) fun _ =>
      hm.setStage .stopping
    rw [hm.reading fun _ _ _ _ _ => rfl]
  cases ending with
  | ordinary => exact hgo hm
  | failed e =>
    exact hgo (hm.blind (announces_reportBootFailure ..).blind
      (announces_reportBootFailure ..).blind).shutdown
  | panicked detail =>
    exact (hm.blind (blind_showDialog ..) (blind_showDialog ..)).shutdown.closeConnections.setStage
      (.tearingDown teardownPlan)

theorem Mirror.beginBoot (hm : Mirror W ρ h h') :
    Mirror W ρ (h.beginBoot W.who) (h'.beginBoot W.who) := by
  obtain ⟨hbegun, hbegin⟩ := hm.take Computer.beginBoot false (fun c => by
      rw [Computer.beginBoot_frame]) (by
    rintro c _ ⟨hevents, htimers, htaken, hdebounce, hsides⟩
    unfold Computer.beginBoot
    dsimp only
    split
    · exact ⟨rfl, hevents, htimers, htaken, hdebounce, hsides⟩
    · exact ⟨rfl, hevents, htimers, htaken, hdebounce, hsides⟩)
  unfold Host.beginBoot Host.config
  dsimp only
  rw [hbegun, hbegin.sameSetup, hbegin.reading fun _ _ _ _ _ => rfl]
  split
  · exact (hbegin.setPhase .booting).setStage (.booting _ .none)
  · exact hbegin.setStage .stopping

theorem Mirror.timeOut (hm : Mirror W ρ h h') (hs : session.Alike session') (warned : Bool) :
    Mirror W ρ (h.timeOut W.who session warned) (h'.timeOut W.who session' warned) :=
  .ite .rfl (fun _ => hm.shutdown.setStage (.resuming true hs (.same _)))
    fun _ => hm.setStage (.resuming true hs (.same _))

/-- Looking for an event: both threads go on, or both wait. -/
theorem Mirror.await (hm : Mirror W ρ h h') (hs : session.Alike session') (filter : String)
    (deadline : Nat) (warned : Bool) :
    Option.Rel (Mirror W ρ) (h.await W.who session filter deadline warned)
      (h'.await W.who session' filter deadline warned) := by
  have hold := hm.computer
  have htake {rest rest' : List Event} (hr : List.Forall₂ (Event.Alike ρ) rest rest') :
      Mirror W ρ (h.modify W.who fun c => { c with events := ⟨rest⟩ })
        (h'.modify W.who fun c => { c with events := ⟨rest'⟩ }) := by
    refine hm.modify _ _ (fun _ => rfl) (fun _ => rfl) ?_
    rintro c _ ⟨-, htimers, htaken, hdebounce, hsides⟩
    exact ⟨hr, htimers, htaken, hdebounce, hsides⟩
  unfold Host.await
  rw [hm.clock]
  generalize h.computer? W.who = found at hold ⊢
  generalize h'.computer? W.who = found' at hold ⊢
  cases hold with
  | none => exact .none
  | @some c c' hc =>
    have hlook := alike_look hc (decide (deadline ≤ h.clock))
    dsimp only
    generalize c.events.look c.isRunning (decide (deadline ≤ h.clock)) = looked at hlook ⊢
    generalize c'.events.look c'.isRunning (decide (deadline ≤ h.clock)) = looked' at hlook ⊢
    cases hlook with
    | none => exact .none
    | event he hrest =>
      refine .some (.ite ?_ (fun _ => (htake hrest).setStage (.resuming false hs he.values)) fun _ =>
        htake hrest)
      rw [he.passes]
    | interrupted => exact .some (hm.setStage (.leaving .ordinary (.some hs)))
    | timedOut => exact .some (hm.timeOut hs warned)

/-! ## 2. Teardowns -/

theorem Mirror.windUp (hm : Mirror W ρ h h') :
    Mirror W ρ (h.modify W.who fun c => c.finish.setPhase .stopped)
      (h'.modify W.who fun c => c.finish.setPhase .stopped) := by
  refine hm.change (fun c => c.finish.setPhase .stopped) (fun c => ?_) ?_
  · rw [Computer.finish_frame]
    rfl
  · rintro c _ ⟨hevents, htimers, htaken, hdebounce, hsides⟩
    unfold Computer.finish
    dsimp only
    split <;> exact ⟨hevents, htimers, htaken, hdebounce, hsides⟩

theorem Mirror.runFinalizers (hm : Mirror W ρ h h') :
    Mirror W ρ (h.runFinalizers W.who) (h'.runFinalizers W.who) := by
  have htake := hm.take (fun c => (c.finalizers, { c with finalizers := [] })) [] (fun _ => rfl) (by
    rintro c _ ⟨hevents, htimers, htaken, hdebounce, hsides⟩
    exact ⟨rfl, hevents, htimers, htaken, hdebounce, hsides⟩)
  unfold Host.runFinalizers
  generalize h.update W.who _ [] = x at htake ⊢
  generalize h'.update W.who _ [] = x' at htake ⊢
  obtain ⟨names, h₁⟩ := x
  obtain ⟨names', h₁'⟩ := x'
  obtain ⟨rfl, hm₁⟩ := htake
  refine List.foldl_rel (r := Mirror W ρ) hm₁ fun name _ h₂ h₂' hm => ?_
  unfold Host.runFinalizer
  rw [hm.sameSetup]
  refine (hm.change (fun c => { c with config := h₂.setup.finalize name c.config }) (fun _ => rfl)
    ?_).note ..
  rintro c _ ⟨hevents, htimers, htaken, hdebounce, hsides⟩
  exact ⟨hevents, htimers, htaken, hdebounce, hsides⟩

theorem Mirror.saveConfig (hm : Mirror W ρ h h') :
    Mirror W ρ (h.saveConfig W.who) (h'.saveConfig W.who) := by
  have hconfig := hm.reading (f := (·.config)) fun _ _ _ _ _ => rfl
  have hsave (config : ComputerConfig) := hm.save config
  unfold Host.saveConfig
  generalize h.computer? W.who = found at hconfig ⊢
  generalize h'.computer? W.who = found' at hconfig ⊢
  cases found with
  | none =>
    cases found' with
    | none => exact hm
    | some c' => cases hconfig
  | some c =>
    cases found' with
    | none => cases hconfig
    | some c' =>
      have hsame : c'.config = c.config := Option.some.inj hconfig
      dsimp only
      rw [hsame]
      exact (hsave c.config).note ..

theorem Mirror.tellAttached (hm : Mirror W ρ h h') {name : String} (hn : W.pool name) (side : String) :
    Mirror W ρ (h.tellAttached name W.who side) (h'.tellAttached name W.who side) := by
  unfold Host.tellAttached
  rcases hm.device_cases hn with ⟨hp, hp'⟩ | ⟨d, hp, hp'⟩
  · rw [hp, hp']
    exact hm
  · rw [hp, hp']
    exact (hm.setPeripheral hn _).note ..

theorem Mirror.tellDetached (hm : Mirror W ρ h h') {name : String} (hn : W.pool name) :
    Mirror W ρ (h.tellDetached name W.who) (h'.tellDetached name W.who) := by
  unfold Host.tellDetached
  rcases hm.device_cases hn with ⟨hp, hp'⟩ | ⟨d, hp, hp'⟩
  · rw [hp, hp']
    exact hm
  · rw [hp, hp']
    exact (hm.setPeripheral hn _).note ..

theorem Mirror.releasePeripherals (hm : Mirror W ρ h h') :
    Mirror W ρ (h.releasePeripherals W.who) (h'.releasePeripherals W.who) := by
  have htake := hm.take (fun c => (c.peripherals.map (·.2), { c with peripherals := [] })) []
    (fun _ => rfl) (by
      rintro c _ ⟨hevents, htimers, htaken, hdebounce, -⟩
      exact ⟨rfl, hevents, htimers, htaken, hdebounce, nofun⟩)
  have hnames : ∀ name ∈ (h.update W.who
      (fun c => (c.peripherals.map (·.2), { c with peripherals := [] })) []).1, W.pool name := by
    have hsides := hm.sides_pool
    rw [update_fst]
    unfold sidesOf at hsides
    cases hc : h.computer? W.who with
    | none => exact nofun
    | some c =>
      rw [hc] at hsides
      intro name hname
      obtain ⟨p, hp, rfl⟩ := List.mem_map.mp hname
      exact hsides p hp
  unfold Host.releasePeripherals
  generalize h.update W.who _ [] = x at htake hnames ⊢
  generalize h'.update W.who _ [] = x' at htake ⊢
  obtain ⟨names, h₁⟩ := x
  obtain ⟨names', h₁'⟩ := x'
  obtain ⟨rfl, hm₁⟩ := htake
  exact List.foldl_rel (r := Mirror W ρ) hm₁ fun name hname _ _ hm => hm.tellDetached (hnames name hname)

/-- What links there are have nothing to do with the computer. -/
theorem Mirror.links (hm : Mirror W ρ h h') : ∀ w, ∀ p ∈ h.sidesOf w, (h.link? p.2).isSome = true →
    (W.others h).reaches w ∧ (W.others h).names p.2 := by
  intro w p hp hl
  have hpool : ¬W.pool p.2 := fun hn => by
    rw [hm.unlinked p.2 hn] at hl
    cases hl
  refine ⟨?_, hpool⟩
  rintro rfl
  exact hpool (hm.sides_pool p hp)

/-- The hosts may be looked at the other way round. -/
theorem Mirror.unlinked' (hm : Mirror W ρ h h') {name : String} (hn : W.pool name) :
    h'.link? name = none := by
  unfold link?
  rw [hm.devices name hn]
  exact hm.unlinked name hn

theorem Mirror.links' (hm : Mirror W ρ h h') : ∀ w, ∀ p ∈ h'.sidesOf w, (h'.link? p.2).isSome = true →
    (W.others h').reaches w ∧ (W.others h').names p.2 := by
  intro w p hp hl
  have hpool : ¬W.pool p.2 := fun hn => by
    rw [hm.unlinked' hn] at hl
    cases hl
  refine ⟨?_, hpool⟩
  rintro rfl
  rw [hm.sides] at hp
  exact hpool (hm.sides_pool p hp)

theorem TimersApart.sole (ha : TimersApart h) (hi : h.HasTimer W.who i) : Sole W h i := by
  rintro e he rfl
  exact ha.one _ _ _ (.inr ⟨e, List.mem_append_left _ he, rfl, rfl⟩) hi

theorem Mirror.takeTimers (hm : Mirror W ρ h h') :
    Mirror W ρ (h.teardownStep W.who .takeTimers) (h'.teardownStep W.who .takeTimers) := by
  refine hm.change Computer.takeTimers (fun _ => rfl) ?_
  rintro c _ ⟨hevents, htimers, htaken, hdebounce, hsides⟩
  exact ⟨hevents, .nil, List.rel_append htaken htimers, hdebounce, hsides⟩

theorem Mirror.invalidateOwn (hm : Mirror W ρ h h') :
    Mirror W ρ (h.teardownStep W.who .invalidateTimers) (h'.teardownStep W.who .invalidateTimers) := by
  obtain ⟨htaken, htake⟩ := hm.update (r := List.Forall₂ ρ)
    (fun c => (c.takenTimers, { c with takenTimers := [] }))
    (fun c => (c.takenTimers, { c with takenTimers := [] })) [] (fun _ => rfl) (fun _ => rfl) (by
      rintro c _ ⟨hevents, htimers, htaken, hdebounce, hsides⟩
      exact ⟨htaken, hevents, htimers, .nil, hdebounce, hsides⟩) .nil
  exact htake.invalidateTimers htaken

theorem Mirror.cancelDebounce (hm : Mirror W ρ h h') (ha : TimersApart h) (ha' : TimersApart h') :
    Mirror W ρ (h.teardownStep W.who .cancelDebounce) (h'.teardownStep W.who .cancelDebounce) := by
  obtain ⟨hdebounce, htake⟩ := hm.update (r := Option.Rel ρ)
    (fun c => (c.debounce, { c with debounce := none }))
    (fun c => (c.debounce, { c with debounce := none })) none (fun _ => rfl) (fun _ => rfl) (by
      rintro c _ ⟨hevents, htimers, htaken, hdebounce, hsides⟩
      exact ⟨hdebounce, hevents, htimers, htaken, .none, hsides⟩) .none
  have hsole {h : Host} (ha : TimersApart h) {i : TimerId} (hi : (h.update W.who
      (fun c => (c.debounce, { c with debounce := none })) none).1 = some i) :
      Sole W (h.update W.who (fun c => (c.debounce, { c with debounce := none })) none).2 i := by
    have hwaits : h.HasTimer W.who i := .inl (.inr ((update_fst ..).symm.trans hi))
    rw [update_frame]
    exact ha.sole hwaits
  have hs := @hsole h ha
  have hs' := @hsole h' ha'
  unfold Host.teardownStep
  dsimp only
  generalize h.update W.who _ none = x at hdebounce htake hs ⊢
  generalize h'.update W.who _ none = x' at hdebounce htake hs' ⊢
  obtain ⟨debounce, h₁⟩ := x
  obtain ⟨debounce', h₁'⟩ := x'
  cases hdebounce with
  | none => exact htake
  | some hi => exact htake.cancel hi (hs rfl) (hs' rfl)

/-- One move of a teardown. -/
theorem Mirror.teardownStep (hm : Mirror W ρ h h') (ha : TimersApart h) (ha' : TimersApart h')
    (step : TeardownStep) :
    Mirror W ρ (h.teardownStep W.who step) (h'.teardownStep W.who step) := by
  cases step with
  | retire => exact hm.retire
  | runFinalizers => exact hm.runFinalizers
  | releaseTerminal => exact hm.blind (blind_releaseTerminal ..) (blind_releaseTerminal ..)
  | saveConfig => exact hm.saveConfig
  | releasePeripherals => exact hm.releasePeripherals
  | detachReferences =>
    exact hm.untouched (untouched_of_works (works_detachReferences hm.links W.who))
      (untouched_of_works (works_detachReferences hm.links' W.who))
  | takeTimers => exact hm.takeTimers
  | invalidateTimers => exact hm.invalidateOwn
  | cancelDebounce => exact hm.cancelDebounce ha ha'
  | closeConnections => exact hm.closeConnections
  | release => exact hm.release

/-! ## 3. One move of the thread -/

/-- The hosts look the same to the computer under some renaming. -/
def Mirrors (W : Ward) (h h' : Host) : Prop := ∃ ρ, Mirror W ρ h h'

theorem Mirror.execute (hm : Mirror W ρ h h') (ha : TimersApart h) (ha' : TimersApart h')
    (hs : session.Alike session') {program program' : Script.Program} (hp : program.Alike program')
    (warned : Bool) :
    ∃ ρ', Mirror W ρ' (h.afterLine W.who session warned (program.execute session.interpreter))
      (h'.afterLine W.who session' warned (program'.execute session'.interpreter)) := by
  have hsame : program'.execute session'.interpreter = program'.execute session.interpreter := by
    obtain ⟨-⟩ := hs
    unfold Script.Program.execute
    rfl
  obtain ⟨hlines, hturn, hafter⟩ := Script.alike_execute hp session.interpreter
  rw [hsame]
  generalize program.execute session.interpreter = line at hlines hturn hafter ⊢
  generalize program'.execute session.interpreter = line' at hlines hturn hafter ⊢
  obtain ⟨lines, turn, program⟩ := line
  obtain ⟨lines', turn', program'⟩ := line'
  cases hlines
  cases hturn
  exact hm.afterLine ha ha' hs warned (lines_refl ρ lines) turn hafter

theorem Mirror.move? (hm : Mirror W ρ h h') (ha : TimersApart h) (ha' : TimersApart h') :
    Option.Rel (Mirrors W) (h.move? W.who) (h'.move? W.who) := by
  have hmoves {h₁ h₁' : Host} (hm : Mirror W ρ h₁ h₁') : Option.Rel (Mirrors W) (some h₁) (some h₁') :=
    .some ⟨ρ, hm⟩
  have hstage := hm.stage
  unfold Host.move?
  generalize h.stage? W.who = found at hstage ⊢
  generalize h'.stage? W.who = found' at hstage ⊢
  cases hstage with
  | none => exact .none
  | some hs =>
    cases hs with
    | betweenBoots => exact hmoves hm.beginBoot
    | booting todo hs =>
      cases todo with
      | nil =>
        cases hs with
        | none => exact hmoves (hm.setStage (.leaving .ordinary .none))
        | some hs => exact hmoves (hm.setStage (.resuming false hs (.same [])))
      | cons step todo =>
        have hboot := hm.bootStep hs step
        dsimp only
        generalize h.bootStep W.who _ step = booted at hboot ⊢
        generalize h'.bootStep W.who _ step = booted' at hboot ⊢
        obtain ⟨result, h₁⟩ := booted
        obtain ⟨result', h₁'⟩ := booted'
        obtain ⟨hresult, hm₁⟩ := hboot
        cases hresult with
        | error e => exact hmoves (hm₁.setStage (.leaving (.failed e) hs))
        | ok hs => exact hmoves (hm₁.setStage (.booting todo hs))
    | resuming warned hs hv =>
      dsimp only
      rw [hm.isRunning]
      split
      · obtain ⟨ρ', hr⟩ := hm.resume ha ha' hs hv warned
        exact .some ⟨ρ', hr⟩
      · exact hmoves (hm.setStage (.leaving .ordinary (.some hs)))
    | executing warned hs hp =>
      obtain ⟨ρ', hl⟩ := hm.execute ha ha' hs hp warned
      exact .some ⟨ρ', hl⟩
    | held request warned hs hp hn =>
      have hpermit := hm.takePermit? hn
      dsimp only
      generalize h.takePermit? _ = taken at hpermit ⊢
      generalize h'.takePermit? _ = taken' at hpermit ⊢
      cases hpermit with
      | none => exact .none
      | some hm₁ => exact hmoves (hm₁.afterReply hs hp warned request (.same _))
    | suspended values warned hs =>
      unfold Host.config
      dsimp only
      rw [hm.isRunning, hm.clock, hm.sameSetup]
      split
      · exact hmoves (hm.setStage (.waiting _ _ warned hs))
      · exact hmoves (hm.setStage (.leaving .ordinary (.some hs)))
    | waiting filter deadline warned hs =>
      exact optionRel_imp (fun _ _ hm => ⟨ρ, hm⟩) (hm.await hs filter deadline warned)
    | leaving ending hs => exact hmoves ((hm.leave hs).setStage (.ended ending))
    | ended ending => exact hmoves (hm.judge ending)
    | stopping => exact hmoves (hm.windUp.setStage (.tearingDown teardownPlan))
    | tearingDown todo =>
      cases todo with
      | nil => exact hmoves (hm.setStage .gone)
      | cons step todo => exact hmoves ((hm.teardownStep ha ha' step).setStage (.tearingDown todo))
    | gone => exact .none

/-! ## 4. Requests from outside -/

theorem Mirror.timers (hm : Mirror W ρ h h') :
    List.Forall₂ ρ (h.timersOf W.who) (h'.timersOf W.who) := by
  have hold := hm.computer
  unfold timersOf
  generalize h.computer? W.who = found at hold ⊢
  generalize h'.computer? W.who = found' at hold ⊢
  cases hold with
  | none => exact .nil
  | some hc =>
    obtain ⟨-, htimers, -⟩ := hc
    exact htimers

theorem Mirror.attach (hm : Mirror W ρ h h') (side : String) {name : String} (hn : W.pool name) :
    Mirror W ρ (h.attach W.who side name).2 (h'.attach W.who side name).2 := by
  have hgive := hm.change (fun c => { c with peripherals := c.peripherals ++ [(side, name)] })
    (fun _ => rfl) (by
      rintro c _ ⟨hevents, htimers, htaken, hdebounce, hsides⟩
      refine ⟨hevents, htimers, htaken, hdebounce, fun p hp => ?_⟩
      rcases List.mem_append.mp hp with hp | hp
      · exact hsides p hp
      · rwa [List.mem_singleton.mp hp])
  have hold := hm.computer
  unfold Host.attach
  rw [hm.devices name hn]
  generalize h.computer? W.who = found at hold ⊢
  generalize h'.computer? W.who = found' at hold ⊢
  cases hold with
  | none => exact hm
  | @some c c' hc =>
    have hside : c'.peripheral? side = c.peripheral? side := by
      obtain ⟨-⟩ := hc
      rfl
    dsimp only
    rw [hside]
    split
    · exact hm
    · exact (hgive.tellAttached hn side).queueEvent (.same _)

theorem Mirror.detach (hm : Mirror W ρ h h') (side : String) :
    Mirror W ρ (h.detach W.who side).2 (h'.detach W.who side).2 := by
  have htake := hm.change (fun c => { c with peripherals := c.peripherals.filter (·.1 != side) })
    (fun _ => rfl) (by
      rintro c _ ⟨hevents, htimers, htaken, hdebounce, hsides⟩
      exact ⟨hevents, htimers, htaken, hdebounce, fun p hp => hsides p (List.mem_of_mem_filter hp)⟩)
  unfold Host.detach
  rw [hm.side]
  cases hname : (h.computer? W.who).bind (·.peripheral? side) with
  | none => exact hm
  | some name => exact (htake.tellDetached (hm.side_pool hname)).queueEvent (.same _)

theorem Sole.of_update {α : Type} {f : Computer → α × Computer} {other : α} (hs : Sole W h i) :
    Sole W (h.update W.who f other).2 i := by
  rw [update_frame]
  exact hs

theorem Mirror.cancelTimer (hm : Mirror W ρ h h') (ha : TimersApart h) (ha' : TimersApart h')
    (hi : ρ i i') (hw : i ∈ h.timersOf W.who) (hw' : i' ∈ h'.timersOf W.who) :
    Mirror W ρ (h.cancelTimer W.who i).2 (h'.cancelTimer W.who i').2 := by
  obtain ⟨hwas, hdrop⟩ := hm.update (r := fun x y => y = x) (·.dropTimer i) (·.dropTimer i') false
    (fun _ => rfl) (fun _ => rfl) (by
      rintro c _ ⟨hevents, htimers, htaken, hdebounce, hsides⟩
      refine ⟨?_, hevents, hm.increasing.without htimers hi, htaken, hdebounce, hsides⟩
      unfold Computer.dropTimer
      dsimp only
      rw [Bool.eq_iff_iff, List.contains_iff_mem, List.contains_iff_mem]
      exact hm.increasing.mem_iff htimers hi) rfl
  have hcancel := hdrop.cancel hi (ha.sole (.inl (.inl (.inl hw)))).of_update
    (ha'.sole (.inl (.inl (.inl hw')))).of_update
  have hcond : ((h'.update W.who (·.dropTimer i') false).1 &&
        (h'.update W.who (·.dropTimer i') false).2.hasHost W.who) = true ↔
      ((h.update W.who (·.dropTimer i) false).1 &&
        (h.update W.who (·.dropTimer i) false).2.hasHost W.who) = true := by
    rw [hwas, hdrop.hasHost]
  exact .ite hcond (fun _ => hcancel) fun _ => hdrop

/-- Cancelling the timer of the debounced event before, if there is one. -/
theorem Mirror.cancelPrevious {x x' : Option TimerId × Host} (hm : Mirror W ρ x.2 x'.2)
    (hprevious : Option.Rel ρ x.1 x'.1) (hs : ∀ old, x.1 = some old → Sole W x.2 old)
    (hs' : ∀ old, x'.1 = some old → Sole W x'.2 old) :
    Mirror W ρ
      { x.2 with timers := match x.1 with
          | some old => x.2.timers.cancel old
          | none => x.2.timers }
      { x'.2 with timers := match x'.1 with
          | some old => x'.2.timers.cancel old
          | none => x'.2.timers } := by
  obtain ⟨previous, h⟩ := x
  obtain ⟨previous', h'⟩ := x'
  cases hprevious with
  | none => exact hm
  | some hi => exact hm.cancel hi (hs _ rfl) (hs' _ rfl)

/-- A number that was not cancelled is not cancelled with another one. -/
theorem count_cancelPrevious (s : TimerService) (previous : Option TimerId)
    (hc : s.cancelled.count i = 0) (hp : ∀ old, previous = some old → i ≠ old) :
    (match previous with
      | some old => s.cancel old
      | none => s).cancelled.count i = 0 ∧
    (match previous with
      | some old => s.cancel old
      | none => s).pending = s.pending := by
  cases previous with
  | none => exact ⟨hc, rfl⟩
  | some old => exact ⟨(count_cancel (hp old rfl)).trans hc, TimerService.pending_cancel ..⟩

theorem Mirror.debounce (hm : Mirror W ρ h h') (ha : TimersApart h) (ha' : TimersApart h') (ms : Nat)
    (e : Event) : Mirror W (ρ.drawn (h.debounce W.who ms e).1 (h'.debounce W.who ms e).1)
      (h.debounce W.who ms e).2 (h'.debounce W.who ms e).2 := by
  have hnew : ρ.drawn ⟨h.counters.timer⟩ ⟨h'.counters.timer⟩ ⟨h.counters.timer⟩ ⟨h'.counters.timer⟩ :=
    .inr ⟨rfl, rfl⟩
  obtain ⟨hprevious, harm⟩ := hm.draw.update (r := Option.Rel _) (·.armDebounce ⟨h.counters.timer⟩)
    (·.armDebounce ⟨h'.counters.timer⟩) none (fun _ => rfl) (fun _ => rfl) (by
      rintro c _ ⟨hevents, htimers, htaken, hdebounce, hsides⟩
      exact ⟨hdebounce, hevents, htimers, htaken, .some hnew, hsides⟩) .none
  -- The service and the marks are as before, and the timer of the event before is the computer's own.
  have hsame {h : Host} (ha : TimersApart h) :
      (({ h with counters := h.counters.newTimer.2 } : Host).update W.who
        (·.armDebounce ⟨h.counters.timer⟩) none).2.timers = h.timers ∧
      (({ h with counters := h.counters.newTimer.2 } : Host).update W.who
        (·.armDebounce ⟨h.counters.timer⟩) none).2.registry = h.registry ∧
      ∀ old, (({ h with counters := h.counters.newTimer.2 } : Host).update W.who
        (·.armDebounce ⟨h.counters.timer⟩) none).1 = some old → h.HasTimer W.who old := by
    refine ⟨?_, ?_, fun old hold => .inl (.inr ((update_fst ..).symm.trans hold))⟩
    · rw [update_frame]
    · rw [update_frame]
  have hclear {h : Host} (ha : TimersApart h) {x : Option TimerId × Host}
      (hx : x.2.timers = h.timers ∧ x.2.registry = h.registry ∧
        ∀ old, x.1 = some old → h.HasTimer W.who old) :
      (∀ old, x.1 = some old → Sole W x.2 old) ∧
      ⟨h.counters.timer⟩ ∉ x.2.registry.freedTimers ∧
      (match x.1 with
        | some old => x.2.timers.cancel old
        | none => x.2.timers).cancelled.count (TimerId.mk h.counters.timer) = 0 ∧
      TimerService.Sorted (match x.1 with
        | some old => x.2.timers.cancel old
        | none => x.2.timers).pending := by
    obtain ⟨htimers, hregistry, hhas⟩ := hx
    obtain ⟨hcancelled, hfreed⟩ := ha.fresh
    obtain ⟨hcount, hpending⟩ := count_cancelPrevious (i := ⟨h.counters.timer⟩) x.2.timers x.1
      (by rw [htimers, hcancelled]) fun old hold heq =>
        Nat.ne_of_lt (ha.drawn _ _ (hhas old hold)) (congrArg TimerId.number heq.symm)
    refine ⟨fun old hold => ?_, hregistry ▸ hfreed, hcount, ?_⟩
    · unfold Sole
      rw [htimers]
      exact ha.sole (hhas old hold)
    · rw [hpending, htimers]
      exact ha.sorted
  obtain ⟨hsole, hfreed, hcount, hsorted⟩ := hclear ha (hsame ha)
  obtain ⟨hsole', hfreed', hcount', hsorted'⟩ := hclear ha' (hsame ha')
  have hschedule := (harm.cancelPrevious hprevious hsole hsole').schedule hsorted hsorted' hnew (.same e)
    (hcount'.trans hcount.symm) (iff_of_false hfreed' hfreed) (congrArg (· + ms) harm.clock.symm)
  exact .ite (Bool.eq_iff_iff.mp harm.hasHost) (fun _ => hschedule) fun _ => harm

/-- What is asked of the computer from outside. -/
theorem Mirror.errand (hm : Mirror W ρ h h') (ha : TimersApart h) (ha' : TimersApart h')
    {errand : Errand} (hw : errand.Within W.pool) :
    Mirrors W (errand.on W.who h) (errand.on W.who h') := by
  cases errand with
  | request r =>
    obtain ⟨ρ', hs, -⟩ := hm.serve ha ha' r
    exact ⟨ρ', hs⟩
  | cancelTimer place =>
    have hget := forall₂_getElem? hm.timers place
    have hmem {h : Host} {i : TimerId} (hi : (h.timersOf W.who)[place]? = some i) :
        i ∈ h.timersOf W.who := List.mem_of_getElem? hi
    have hmem₁ := @hmem h
    have hmem₁' := @hmem h'
    unfold Errand.on
    dsimp only
    generalize (h.timersOf W.who)[place]? = found at hget hmem₁ ⊢
    generalize (h'.timersOf W.who)[place]? = found' at hget hmem₁' ⊢
    cases hget with
    | none => exact ⟨ρ, hm⟩
    | some hi => exact ⟨ρ, hm.cancelTimer ha ha' hi (hmem₁ rfl) (hmem₁' rfl)⟩
  | debounce ms e => exact ⟨_, hm.debounce ha ha' ms e⟩
  | attach side name => exact ⟨ρ, hm.attach side hw⟩
  | detach side => exact ⟨ρ, hm.detach side⟩
  | connect name =>
    refine ⟨ρ, (hm.take (·.openConnection name) 0 (fun _ => rfl) ?_).2⟩
    rintro c _ ⟨hevents, htimers, htaken, hdebounce, hsides⟩
    exact ⟨rfl, hevents, htimers, htaken, hdebounce, hsides⟩
  | disconnect id =>
    have htake := hm.take (·.takeConnection id) none (fun _ => rfl) (by
      rintro c _ ⟨hevents, htimers, htaken, hdebounce, hsides⟩
      exact ⟨rfl, hevents, htimers, htaken, hdebounce, hsides⟩)
    unfold Errand.on Host.closeConnection
    dsimp only
    generalize h.update W.who _ none = x at htake ⊢
    generalize h'.update W.who _ none = x' at htake ⊢
    obtain ⟨closed, h₁⟩ := x
    obtain ⟨closed', h₁'⟩ := x'
    obtain ⟨rfl, hm₁⟩ := htake
    cases closed' with
    | none => exact ⟨ρ, hm₁⟩
    | some c => exact ⟨ρ, hm₁.note ..⟩
  | disconnectAll => exact ⟨ρ, hm.closeConnections⟩
  | addFinalizer name =>
    refine ⟨ρ, hm.modify _ _ (fun _ => rfl) (fun _ => rfl) ?_⟩
    rintro c _ ⟨hevents, htimers, htaken, hdebounce, hsides⟩
    exact ⟨hevents, htimers, htaken, hdebounce, hsides⟩
  | permit device =>
    refine ⟨ρ, ?_⟩
    unfold Errand.on Host.givePermit
    dsimp only
    rcases hm.device_cases hw with ⟨hp, hp'⟩ | ⟨d, hp, hp'⟩
    · rw [hp, hp']
      exact hm
    · rw [hp, hp']
      exact hm.setPeripheral hw _

end

end Host

end ComputerHost

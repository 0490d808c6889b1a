import ComputerHost.Proofs.Host.Footprint

/-!
# Changes of what computers hold

A `Change` is one call that matters to what computers hold: their events, run states, timers,
peripherals, connections, finalizers and settings. A host `Evolves` by any number of changes, in any order,
with quiet ones between them; the trace keeps every change together with the host that it found.

Results:
1. `differs_on`: a change touches what `Change.Touches` says.
2. `Comes.trans`, `comes_on`: how evolutions are put together.
-/

namespace ComputerHost

/-- One call that changes what computers hold. -/
inductive Change where
  | queue (who : Handle) (e : Event)
  | setQueue (who : Handle) (events : List Event)
  | shutdown (who : Handle)
  | reboot (who : Handle)
  | beginBoot (who : Handle)
  /-- Stop a computer, unless something was asked of it already. -/
  | finish (who : Handle)
  | setLabel (who : Handle) (text : String)
  | startTimer (who : Handle) (ms : Nat)
  | cancelTimer (who : Handle) (id : TimerId)
  | debounce (who : Handle) (ms : Nat) (e : Event)
  | sweep
  /-- Look for the owner of the first timer that was taken from the service. -/
  | resolve
  /-- Let the owner that was found decide. -/
  | fire
  | spawn (id : UInt32) (isDebugger : Bool)
  /-- Make a peripheral known. -/
  | supply (name : String) (p : Peripheral)
  | attach (who : Handle) (side name : String)
  | detach (who : Handle) (side : String)
  /-- Call `turnOn` on a link. -/
  | turnOn (link : String)
  | connect (who : Handle) (name : String)
  | disconnect (who : Handle) (id : Nat)
  | disconnectAll (who : Handle)
  | addFinalizer (who : Handle) (name : String)
  | teardown (who : Handle) (step : TeardownStep)

namespace Host

/-- Call `turnOn` on a link. -/
def turnOn (h : Host) (link : String) : Host :=
  match h.peripheral? link with
  | some (.link l) => if l.hasHost then (h.callLink link l "turnOn").2 else h
  | _ => h

end Host

/-- The host after a change. -/
def Change.on : Change → Host → Host
  | queue who e, h => h.queueEvent who e
  | setQueue who events, h => h.setQueue who events
  | shutdown who, h => h.modify who Computer.shutdown
  | reboot who, h => h.modify who Computer.reboot
  | beginBoot who, h => (h.update who Computer.beginBoot false).2
  | finish who, h => h.modify who Computer.finish
  | setLabel who text, h =>
    h.modify who fun c => { c with config := { c.config with label := some text } }
  | startTimer who ms, h => (h.startTimer who ms).2
  | cancelTimer who id, h => (h.cancelTimer who id).2
  | debounce who ms e, h => (h.debounce who ms e).2
  | sweep, h => h.sweep
  | resolve, h => h.resolveDue?.getD h
  | fire, h => h.fire?.getD h
  | spawn id isDebugger, h => (h.spawn id isDebugger).2
  | supply name p, h => h.addPeripheral name p
  | attach who side name, h => (h.attach who side name).2
  | detach who side, h => (h.detach who side).2
  | turnOn link, h => h.turnOn link
  | connect who name, h => (h.openConnection who name).2
  | disconnect who id, h => (h.closeConnection who id).2
  | disconnectAll who, h => h.closeConnections who
  | addFinalizer who name, h => h.addFinalizer who name
  | teardown who step, h => h.teardownStep who step

/-- What a change may touch. -/
def Change.Touches : Change → Aspect → Prop
  | queue w _, x | setQueue w _, x => x = .events w
  | shutdown w, x | reboot w, x | beginBoot w, x | finish w, x => x = .runState w
  | setLabel w _, x => x = .config w
  | startTimer w _, x => x = .timers w ∨ x = .service ∨ x = .numbering
  | cancelTimer w _, x => x = .timers w ∨ x = .service
  | debounce w _ _, x => x = .debounce w ∨ x = .service ∨ x = .numbering
  | sweep, x => x = .service
  | resolve, x => x.OfResolution
  | fire, x => x.OfFiring
  | spawn _ _, x => x.OfSpawn
  | supply _ _, x => x = .peripherals
  | attach w _ _, x | detach w _, x => x.OfWiring w
  | turnOn _, x => x.OfSpawn ∨ x = .peripherals ∨ x = .references
  | connect w _, x => x = .connections w
  | disconnect w _, x | disconnectAll w, x => x = .connections w ∨ x = .custody w
  | addFinalizer w _, x => x = .finalizers w
  | teardown w step, x => step.Touches w x

namespace Host

/-- Changes one after the other, with quiet ones between them, and each of them with the host that it
found. -/
inductive Evolves (h₀ : Host) : List (Host × Change) → Host → Prop
  | refl : Evolves h₀ [] h₀
  | change {trace : List (Host × Change)} {h : Host} {x : Change} :
      Evolves h₀ trace h → Evolves h₀ (trace ++ [(h, x)]) (x.on h)
  | quiet {trace : List (Host × Change)} {h h' : Host} :
      Evolves h₀ trace h → Quiet h h' → Evolves h₀ trace h'

/-- Changes made at once, each with the host that it finds. -/
def traceOf (h : Host) : List Change → List (Host × Change)
  | [] => []
  | x :: later => (h, x) :: (x.on h).traceOf later

/-- The second host comes from the first one by these changes. -/
def Comes (h : Host) (changes : List Change) (h' : Host) : Prop :=
  ∃ trace, Evolves h trace h' ∧ trace.map (·.2) = changes

/-! ## 1. Footprints of changes -/

section
variable {h h' h'' : Host} {who w : Handle}

theorem callLink_turnOn (h : Host) (link : String) (l : Link) :
    h.callLink link l "turnOn" =
      if (h.registry.resolve? l.target).isSome then (.results [], h)
      else match h.spawn l.target.id false with
        | (.ok who, h) => (.results [], h.retarget link l who)
        | (.error e, h) => (.refused e.message, h) :=
  rfl

/-- Turning a link on does nothing, or it spawns a computer, which the link stands for if there is one. -/
theorem turnOn_cases (h : Host) (link : String) : h.turnOn link = h ∨
    ∃ l : Link, h.peripheral? link = some (.link l) ∧
      (h.turnOn link = (h.spawn l.target.id false).2 ∨ ∃ v, (h.spawn l.target.id false).1 = .ok v ∧
        h.turnOn link = (h.spawn l.target.id false).2.retarget link l v) := by
  unfold turnOn
  split
  · next l hp =>
    split
    · rw [callLink_turnOn]
      split
      · exact .inl rfl
      · refine .inr ⟨l, hp, ?_⟩
        rcases h.spawn l.target.id false with ⟨e | v, h₁⟩
        · exact .inl rfl
        · exact .inr ⟨v, rfl, rfl⟩
    · exact .inl rfl
  · exact .inl rfl

theorem differs_turnOn (h : Host) (link : String) :
    Differs (fun x => x.OfSpawn ∨ x = .peripherals ∨ x = .references) h (h.turnOn link) := by
  have hspawn (l : Link) := (differs_spawn h l.target.id false).mono fun x =>
    Or.inl (b := x = Aspect.peripherals ∨ x = Aspect.references)
  obtain heq | ⟨l, -, heq | ⟨v, -, heq⟩⟩ := turnOn_cases h link <;> rw [heq]
  · exact .refl _ h
  · exact hspawn l
  · exact (hspawn l).trans ((differs_retarget ..).mono fun x => .inr)

/-- A change touches what it may touch. -/
theorem differs_on (x : Change) (h : Host) : Differs x.Touches h (x.on h) := by
  cases x with
  | queue w e => exact differs_queueEvent h w e
  | setQueue w events => exact differs_setQueue h w events
  | shutdown w => exact differs_shutdown h w
  | reboot w => exact differs_reboot h w
  | beginBoot w => exact differs_begin h w
  | finish w => exact differs_finish h w
  | setLabel w text => exact differs_setLabel h w text
  | startTimer w ms => exact differs_startTimer h w ms
  | cancelTimer w id => exact differs_cancelTimer h w id
  | debounce w ms e => exact differs_debounce h w ms e
  | sweep => exact differs_sweep h
  | resolve =>
    show Differs _ h (h.resolveDue?.getD h)
    cases hr : h.resolveDue? with
    | none => exact .refl _ h
    | some h' => exact differs_resolveDue? hr
  | fire =>
    show Differs _ h (h.fire?.getD h)
    cases hf : h.fire? with
    | none => exact .refl _ h
    | some h' => exact differs_fire? hf
  | spawn id isDebugger => exact differs_spawn h id isDebugger
  | supply name p => exact differs_addPeripheral h name p
  | attach w side name => exact differs_attach h w side name
  | detach w side => exact differs_detach h w side
  | turnOn link => exact differs_turnOn h link
  | connect w name => exact differs_openConnection h w name
  | disconnect w id => exact differs_closeConnection h w id
  | disconnectAll w => exact differs_closeConnections h w
  | addFinalizer w name => exact differs_addFinalizer h w name
  | teardown w step => exact differs_teardownStep h w step

theorem on_resolve (hr : h.resolveDue? = some h') : Change.resolve.on h = h' := by
  show h.resolveDue?.getD h = h'
  rw [hr]
  rfl

theorem on_fire (hf : h.fire? = some h') : Change.fire.on h = h' := by
  show h.fire?.getD h = h'
  rw [hf]
  rfl

/-! ## 2. Evolutions -/

theorem Evolves.trans {h₀ : Host} {past later : List (Host × Change)} (he : Evolves h₀ past h)
    (he' : Evolves h later h') : Evolves h₀ (past ++ later) h' := by
  induction he' with
  | refl => rwa [List.append_nil]
  | change _ ih =>
    rw [← List.append_assoc]
    exact .change ih
  | quiet _ hq ih => exact .quiet ih hq

theorem evolves_traceOf (h : Host) (changes : List Change) :
    Evolves h (h.traceOf changes) (changes.foldl (fun h x => x.on h) h) := by
  induction changes generalizing h with
  | nil => exact .refl
  | cons x later ih => exact Evolves.trans (.change .refl) (ih (x.on h))

/-- The host that a change of a trace found has evolved by what came before it. -/
theorem Evolves.split {h₀ h₁ : Host} {x : Change} {past later : List (Host × Change)}
    (he : Evolves h₀ (past ++ (h₁, x) :: later) h) :
    Evolves h₀ past h₁ ∧ Evolves (x.on h₁) later h := by
  generalize ht : past ++ (h₁, x) :: later = trace at he
  induction he generalizing later with
  | refl => simp at ht
  | @change trace h y he ih =>
    rcases List.eq_nil_or_concat later with rfl | ⟨later, last, rfl⟩
    · obtain ⟨rfl, heq⟩ := List.append_inj' ht rfl
      cases List.singleton_inj.mp heq
      exact ⟨he, .refl⟩
    · rw [List.concat_eq_append, ← List.cons_append, ← List.append_assoc] at ht
      obtain ⟨heq, hlast⟩ := List.append_inj' ht rfl
      obtain ⟨hpast, hlater⟩ := ih heq
      rw [List.concat_eq_append, List.singleton_inj.mp hlast]
      exact ⟨hpast, .change hlater⟩
  | quiet _ hq ih =>
    obtain ⟨hpast, hlater⟩ := ih ht
    exact ⟨hpast, .quiet hlater hq⟩

theorem Differs.comes (hq : Quiet h h') : Comes h [] h' := ⟨[], .quiet .refl hq, rfl⟩

theorem comes_on (x : Change) (h : Host) : Comes h [x] (x.on h) := ⟨[(h, x)], .change .refl, rfl⟩

theorem Comes.nil (hc : Comes h [] h') : Quiet h h' := by
  obtain ⟨trace, he, hmap⟩ := hc
  obtain rfl := List.map_eq_nil_iff.mp hmap
  generalize ht : ([] : List (Host × Change)) = trace at he
  induction he with
  | refl => exact .refl _ h
  | change => simp at ht
  | quiet _ hq ih => exact (ih ht).trans hq

theorem Comes.single {x : Change} (hc : Comes h [x] h') :
    ∃ h₁, Quiet h h₁ ∧ Quiet (x.on h₁) h' := by
  obtain ⟨trace, he, hmap⟩ := hc
  obtain ⟨⟨h₁, y⟩, rfl, rfl⟩ := List.map_eq_singleton_iff.mp hmap
  have he' : Evolves h ([] ++ (h₁, y) :: []) h' := he
  obtain ⟨hpast, hlater⟩ := he'.split
  exact ⟨h₁, Comes.nil ⟨[], hpast, rfl⟩, Comes.nil ⟨[], hlater, rfl⟩⟩

theorem Comes.trans {xs ys : List Change} (hc : Comes h xs h') (hc' : Comes h' ys h'') :
    Comes h (xs ++ ys) h'' := by
  obtain ⟨past, he, rfl⟩ := hc
  obtain ⟨later, he', rfl⟩ := hc'
  exact ⟨past ++ later, he.trans he', List.map_append⟩

/-- What each of the changes respects, all of them do. -/
theorem Comes.rel {R : Host → Host → Prop} (htrans : ∀ {h₁ h₂ h₃}, R h₁ h₂ → R h₂ h₃ → R h₁ h₃)
    (hquiet : ∀ {h₁ h₂}, Quiet h₁ h₂ → R h₁ h₂) {xs : List Change}
    (hon : ∀ x ∈ xs, ∀ h, R h (x.on h)) (hc : Comes h xs h') : R h h' := by
  obtain ⟨trace, he, rfl⟩ := hc
  induction he with
  | refl => exact hquiet (.refl _ h)
  | @change _ h₁ x _ ih =>
    rw [List.map_append, List.forall_mem_append] at hon
    exact htrans (ih hon.1) (hon.2 x List.mem_cons_self h₁)
  | quiet _ hq ih => exact htrans (ih hon) (hquiet hq)

theorem Comes.quiet {xs : List Change} (hc : Comes h xs h') (hq : Quiet h' h'') :
    Comes h xs h'' := by
  obtain ⟨past, he, rfl⟩ := hc
  exact ⟨past, .quiet he hq, rfl⟩

theorem Differs.comes_of {xs : List Change} (hq : Quiet h h') (hc : Comes h' xs h'') :
    Comes h xs h'' :=
  hq.comes.trans hc

end

end Host

end ComputerHost

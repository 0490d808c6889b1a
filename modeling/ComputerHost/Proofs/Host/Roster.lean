import ComputerHost.Proofs.Host.Change

/-!
# Who there is

The number in a handle is drawn afresh for every construction, so no two instances share a handle,
and one that was taken out of the registry is never registered again. `Rostered` is what every host that
has evolved from an empty one respects.

Results:
1. `spawn_ok`, `differs_of_spawn_error`: what a spawn does.
2. `rostered_of_evolves`, `not_registered_of_evolves`: along an evolution the roster is respected, and who is
   gone does not come back.
-/

namespace ComputerHost.Host

/-- The registered computers are there, once each, and their numbers have been drawn. -/
structure Rostered (h : Host) : Prop where
  drawn : ∀ who, (h.computer? who).isSome = true → who.generation < h.counters.generation
  known : ∀ who ∈ h.registry.registered, (h.computer? who).isSome = true
  nodup : h.registry.registered.Nodup
  live : ∀ who ∈ h.registry.registered, who ∉ h.registry.freed

section
variable {h h' : Host} {who w : Handle}

/-! ## 1. Spawning -/

theorem differs_of_spawn_error {id : UInt32} {isDebugger : Bool} {e : SpawnError}
    (hs : h.spawn id isDebugger = (.error e, h')) : Differs (· = .tree) h h' := by
  have ha := (aborts_of_spawn_error (congrArg Prod.fst hs)).1
  rw [hs] at ha
  exact differs_of_aborts ha

/-- A spawned computer has a new handle, is registered, and its thread is about to boot it. -/
theorem spawn_ok {id : UInt32} {isDebugger : Bool} (hs : h.spawn id isDebugger = (.ok who, h')) :
    who = ⟨id, h.counters.generation⟩ ∧ h'.counters.generation = h.counters.generation + 1 ∧
      h'.registry = h.registry.insert who ∧ h'.threads = h.threads ++ [(who, .betweenBoots)] ∧
      ∃ terminal mounts config dataDir, h'.computers =
        h.computers ++ [Computer.new who isDebugger terminal mounts config dataDir] := by
  unfold spawn at hs
  rcases hc : h.create id isDebugger with ⟨e | w, h₁⟩ <;> rw [hc] at hs <;> cases hs
  obtain ⟨rfl, terminal, mounts, config, tree, -, -, heq⟩ := made_of_create_ok hc
  rw [heq]
  exact ⟨rfl, rfl, rfl, rfl, _, _, _, _, rfl⟩

/-! ## 2. The roster along an evolution -/

theorem rostered_new (setup : HostSetup) (tree : FileTree) (store : ConfigStore) :
    Rostered (Host.new setup tree store) where
  drawn who hsome := by simp [computer?, Host.new] at hsome
  known who hw := by simp [Host.new, Registry.empty] at hw
  nodup := List.nodup_nil
  live who hw := by simp [Host.new, Registry.empty] at hw

theorem rostered_of_agrees (hr : Rostered h) (ha : Aspect.roster.Agrees h h')
    (hreg : h'.registry.registered.Sublist h.registry.registered)
    (hfreed : ∀ who ∈ h'.registry.registered, who ∉ h.registry.freed → who ∉ h'.registry.freed) :
    Rostered h' where
  drawn who hsome := by
    rw [ha.1]
    exact hr.drawn who ((ha.2 who).symm.trans hsome)
  known who hw := (ha.2 who).trans (hr.known who (hreg.subset hw))
  nodup := hr.nodup.sublist hreg
  live who hw := hfreed who hw (hr.live who (hreg.subset hw))

theorem rostered_of_differs {at₁ : Aspect → Prop} (hr : Rostered h) (hd : Differs at₁ h h')
    (hroster : ¬at₁ .roster) (hreg : ¬at₁ .registered) : Rostered h' := by
  obtain ⟨hregistered, hfreed⟩ := hd.agrees _ hreg
  refine rostered_of_agrees hr (hd.agrees _ hroster) (hregistered ▸ .refl _) fun who _ hn => ?_
  rwa [hfreed]

theorem rostered_of_spawn_ok {id : UInt32} {isDebugger : Bool} (hr : Rostered h)
    (hs : h.spawn id isDebugger = (.ok who, h')) : Rostered h' := by
  obtain ⟨hwho, hgen, hreg, -, terminal, mounts, config, dataDir, hcs⟩ := spawn_ok hs
  have hfind := computer?_of_append hcs
  have hold (w : Handle) (hsome : (h.computer? w).isSome = true) : (h'.computer? w).isSome = true := by
    rw [hfind]
    obtain ⟨c, hc⟩ := Option.isSome_iff_exists.mp hsome
    rw [hc]
    rfl
  -- Its generation has not been drawn before, so nobody was registered under the new handle.
  have hfresh : who ∉ h.registry.registered := by
    intro hmem
    have hlt := hr.drawn who (hr.known who hmem)
    rw [hwho] at hlt
    exact Nat.lt_irrefl _ hlt
  constructor
  · intro w hsome
    rw [hfind] at hsome
    rw [hgen]
    cases hw : h.computer? w with
    | some c => exact Nat.lt_succ_of_lt (hr.drawn w (by rw [hw]; rfl))
    | none =>
      rw [hw] at hsome
      by_cases heq : who = w
      · rw [← heq, hwho]
        exact Nat.lt_succ_self _
      · simp [Computer.new, heq] at hsome
  · intro w hw
    rw [hreg] at hw
    rcases List.mem_append.mp hw with hw | hw
    · exact hold w (hr.known w hw)
    · rw [List.mem_singleton.mp hw, hfind]
      cases h.computer? who <;> simp [Computer.new]
  · rw [hreg]
    exact List.nodup_append.mpr ⟨hr.nodup, List.nodup_cons.mpr ⟨List.not_mem_nil, .nil⟩, fun v hv u hu => by
      rw [List.mem_singleton.mp hu]
      exact fun heq => hfresh (heq ▸ hv)⟩
  · intro w hw
    rw [hreg] at hw ⊢
    show w ∉ (h.registry.freed.forget who).2
    rw [Tombstones.mem_forget]
    rintro ⟨hne, hfreed⟩
    rcases List.mem_append.mp hw with hw | hw
    · exact hr.live w hw hfreed
    · exact hne (List.mem_singleton.mp hw)

theorem rostered_spawn (hr : Rostered h) (id : UInt32) (isDebugger : Bool) :
    Rostered (h.spawn id isDebugger).2 := by
  rcases hs : h.spawn id isDebugger with ⟨made, h₁⟩
  cases made with
  | ok w => exact rostered_of_spawn_ok hr hs
  | error e => exact rostered_of_differs hr (differs_of_spawn_error hs) nofun nofun

theorem rostered_turnOn (hr : Rostered h) (link : String) : Rostered (h.turnOn link) := by
  obtain heq | ⟨l, -, heq | ⟨v, -, heq⟩⟩ := turnOn_cases h link <;> rw [heq]
  · exact hr
  · exact rostered_spawn hr l.target.id false
  · exact rostered_of_differs (rostered_spawn hr l.target.id false) (differs_retarget ..) (by simp)
      (by simp)

theorem rostered_teardownStep (hr : Rostered h) (who : Handle) (step : TeardownStep) :
    Rostered (h.teardownStep who step) := by
  have hd := differs_teardownStep h who step
  cases step with
  | retire =>
    refine rostered_of_agrees hr ⟨rfl, fun _ => rfl⟩ List.erase_sublist fun w hw hn => ?_
    show w ∉ h.registry.freed.add who
    rw [Tombstones.mem_add]
    rintro (rfl | hfreed)
    · exact hr.nodup.not_mem_erase hw
    · exact hn hfreed
  | release =>
    refine rostered_of_agrees hr ⟨rfl, fun _ => rfl⟩ (.refl _) fun w hw hn => ?_
    show w ∉ (h.registry.freed.forget who).2
    rw [Tombstones.mem_forget]
    exact fun hfreed => hn hfreed.2
  | runFinalizers | releaseTerminal | saveConfig | releasePeripherals | detachReferences | takeTimers
  | invalidateTimers | cancelDebounce | closeConnections =>
    exact rostered_of_differs hr hd not_false not_false

theorem rostered_on (hr : Rostered h) (x : Change) : Rostered (x.on h) := by
  have hd := differs_on x h
  cases x with
  | spawn id isDebugger => exact rostered_spawn hr id isDebugger
  | turnOn link => exact rostered_turnOn hr link
  | teardown w step => exact rostered_teardownStep hr w step
  | resolve | fire | attach | detach => exact rostered_of_differs hr hd not_false not_false
  | queue | setQueue | shutdown | reboot | beginBoot | finish | setLabel | startTimer | cancelTimer
  | debounce | sweep | supply | connect | disconnect | disconnectAll | addFinalizer =>
    refine rostered_of_differs hr hd ?_ ?_ <;> simp [Change.Touches]

theorem rostered_of_evolves {h₀ : Host} {trace : List (Host × Change)} (he : Evolves h₀ trace h)
    (hr : Rostered h₀) : Rostered h := by
  induction he with
  | refl => exact hr
  | change _ ih => exact rostered_on ih _
  | quiet _ hq ih => exact rostered_of_differs ih hq not_false not_false

/-- Who is registered by a spawn has not been there before. -/
theorem registered_of_spawn (hr : Rostered h) {id : UInt32} {isDebugger : Bool}
    (hw : w ∈ (h.spawn id isDebugger).2.registry.registered) :
    w ∈ h.registry.registered ∨ h.computer? w = none := by
  rcases hs : h.spawn id isDebugger with ⟨made, h₁⟩
  rw [hs] at hw
  cases made with
  | ok v =>
    obtain ⟨hv, -, hreg, -⟩ := spawn_ok hs
    rw [hreg] at hw
    rcases List.mem_append.mp hw with hw | hw
    · exact .inl hw
    · right
      rw [List.mem_singleton.mp hw]
      cases hc : h.computer? v with
      | none => rfl
      | some c =>
        have hlt := hr.drawn v (by rw [hc]; rfl)
        rw [hv] at hlt
        exact absurd hlt (Nat.lt_irrefl _)
  | error e =>
    have hsame := ((differs_of_spawn_error hs).agrees .registered nofun).1
    exact .inl (hsame ▸ hw)

/-- Who is registered by a change has not been there before. -/
theorem registered_on (hr : Rostered h) {x : Change} (hw : w ∈ (x.on h).registry.registered) :
    w ∈ h.registry.registered ∨ h.computer? w = none := by
  have hd := differs_on x h
  have hsame (hx : ¬x.Touches .registered) : w ∈ h.registry.registered := by
    rw [← (hd.agrees .registered hx).1]
    exact hw
  cases x with
  | spawn id isDebugger => exact registered_of_spawn hr hw
  | turnOn link =>
    change w ∈ (h.turnOn link).registry.registered at hw
    obtain heq | ⟨l, -, heq | ⟨v, -, heq⟩⟩ := turnOn_cases h link <;> rw [heq] at hw
    · exact .inl hw
    · exact registered_of_spawn hr hw
    · rw [((differs_retarget _ link l v).agrees .registered (by simp)).1] at hw
      exact registered_of_spawn hr hw
  | teardown v step =>
    cases step with
    | retire => exact .inl (List.erase_subset hw)
    | release => exact .inl hw
    | _ => exact .inl (hsame not_false)
  | _ => exact .inl (hsame (by simp [Change.Touches, Aspect.OfWiring, Aspect.OfResolution, Aspect.OfFiring]))

/-- Who is there and not registered is never registered again. -/
theorem not_registered_of_evolves {h₀ : Host} {trace : List (Host × Change)}
    (he : Evolves h₀ trace h) (hr : Rostered h₀) (hsome : (h₀.computer? w).isSome = true)
    (hw : w ∉ h₀.registry.registered) :
    (h.computer? w).isSome = true ∧ w ∉ h.registry.registered := by
  induction he with
  | refl => exact ⟨hsome, hw⟩
  | @change _ _ x he ih =>
    refine ⟨(differs_on x _).known w ih.1, fun hmem => ?_⟩
    rcases registered_on (rostered_of_evolves he hr) hmem with hmem | hnone
    · exact ih.2 hmem
    · rw [hnone] at ih
      exact Bool.false_ne_true ih.1
  | quiet _ hq ih =>
    refine ⟨hq.known w ih.1, fun hmem => ih.2 ?_⟩
    rw [← (hq.agrees .registered not_false).1]
    exact hmem

end

/-- A host on which computers can be spawned. -/
def spawning : Host := Host.new (HostSetup.standard .default) ⟨[(["rom"], .directory)], []⟩ default

end ComputerHost.Host

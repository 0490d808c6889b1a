import ComputerHost.Proofs.Host.Roster
import ComputerHost.Proofs.Host.Wiring

/-!
# Instances of one id

People know a computer by its id, and an id is to have one live instance. A link names its target by the
handle, that is by the instance, and `turnOn` asks whether that very instance is live. So a link that stands
for an instance that is gone lags behind when somebody else has started the id anew: it will start the id
once more, next to the instance that runs.

Results:
1. `callLink_of_live`, `registered_callLink_of_lags`: what `turnOn` does on a link that is up to date, and on
   one that lags.
2. `distinct_on`: the ids of the live instances, from one change to the next.
3. `turnOn_starts_second_if_lagging`: both, for every host.
-/

namespace ComputerHost

namespace Host

/-- An instance of this id is live. -/
def IsLive (h : Host) (id : UInt32) : Prop := ∃ who ∈ h.registry.registered, who.id = id

/-- The link stands for an instance that is gone, and there is a live one of the same id. -/
def Lags (h : Host) (l : Link) : Prop :=
  h.registry.resolve? l.target = none ∧ h.IsLive l.target.id

instance (h : Host) (id : UInt32) : Decidable (h.IsLive id) :=
  inferInstanceAs (Decidable (∃ who ∈ h.registry.registered, who.id = id))

instance (h : Host) (l : Link) : Decidable (h.Lags l) :=
  inferInstanceAs (Decidable (h.registry.resolve? l.target = none ∧ h.IsLive l.target.id))

/-- The ids of the live instances, oldest first. -/
def liveIds (h : Host) : List UInt32 := h.registry.registered.map (·.id)

end Host

/-- Whoever starts an id has made sure that no instance of it is live. -/
def Change.IsCareful (h : Host) : Change → Prop
  | .spawn id _ => ¬h.IsLive id
  | .turnOn link => ∀ l, h.link? link = some l → ¬h.Lags l
  | _ => True

namespace Host

section
variable {h h' : Host} {who : Handle} {x : Change} {l : Link} {link : String} {id : UInt32}

/-! ## 1. Turning on -/

theorem mem_liveIds : id ∈ h.liveIds ↔ h.IsLive id := List.mem_map

/-- An instance of the id is live, and the link does not lag: nothing is started. -/
theorem callLink_of_live (hlive : h.IsLive l.target.id) (hl : ¬h.Lags l) (link : String) :
    h.callLink link l "turnOn" = (.results [], h) := by
  have htarget : (h.registry.resolve? l.target).isSome = true := by
    refine Option.isSome_iff_ne_none.mpr fun hnone => ?_
    exact hl ⟨hnone, hlive⟩
  rw [callLink_turnOn, if_pos htarget]

theorem registered_retarget (h : Host) (link : String) (l : Link) (target : Handle) :
    (h.retarget link l target).registry.registered = h.registry.registered :=
  ((differs_retarget h link l target).agrees .registered (by simp)).1

/-- A spawn registers an instance of the id, or nothing if it fails. -/
theorem registered_of_spawned (h : Host) (id : UInt32) (isDebugger : Bool) :
    (∀ who, (h.spawn id isDebugger).1 = .ok who → who.id = id ∧
      (h.spawn id isDebugger).2.registry.registered = h.registry.registered ++ [who]) ∧
    ∀ e, (h.spawn id isDebugger).1 = .error e →
      (h.spawn id isDebugger).2.registry.registered = h.registry.registered := by
  rcases hs : h.spawn id isDebugger with ⟨made, h₁⟩
  refine ⟨fun who heq => ?_, fun e heq => ?_⟩
  · obtain rfl : made = .ok who := heq
    obtain ⟨rfl, -, hreg, -⟩ := spawn_ok hs
    exact ⟨rfl, congrArg Registry.registered hreg⟩
  · obtain rfl : made = .error e := heq
    exact ((differs_of_spawn_error hs).agrees .registered nofun).1

/-- The link lags: what is started, if it can be constructed, is one more instance of the id. -/
theorem registered_callLink_of_lags (hl : h.Lags l) (link : String) :
    (∀ who, (h.spawn l.target.id false).1 = .ok who → who.id = l.target.id ∧
      (h.callLink link l "turnOn").2.registry.registered = h.registry.registered ++ [who]) ∧
    ∀ e, (h.spawn l.target.id false).1 = .error e →
      (h.callLink link l "turnOn").2.registry.registered = h.registry.registered := by
  have hnone : ¬(h.registry.resolve? l.target).isSome = true := by
    rw [hl.1]
    exact Bool.false_ne_true
  have hspawned := registered_of_spawned h l.target.id false
  rw [callLink_turnOn, if_neg hnone]
  rcases hs : h.spawn l.target.id false with ⟨made, h₁⟩
  rw [hs] at hspawned
  refine ⟨fun who heq => ?_, fun e heq => ?_⟩
  · obtain rfl : made = .ok who := heq
    obtain ⟨hid, hreg⟩ := hspawned.1 who rfl
    exact ⟨hid, (registered_retarget ..).trans hreg⟩
  · obtain rfl : made = .error e := heq
    exact hspawned.2 e rfl

/-! ## 2. The ids of the live instances -/

/-- Only spawns and `turnOn` register anything. -/
theorem sublist_on (hspawn : ∀ id isDebugger, x ≠ .spawn id isDebugger)
    (hturn : ∀ link, x ≠ .turnOn link) (h : Host) :
    (x.on h).registry.registered.Sublist h.registry.registered := by
  have hsame (hx : ¬x.Touches .registered) :
      (x.on h).registry.registered.Sublist h.registry.registered := by
    rw [((differs_on x h).agrees .registered hx).1]
  cases x with
  | spawn id isDebugger => exact absurd rfl (hspawn id isDebugger)
  | turnOn link => exact absurd rfl (hturn link)
  | teardown w step =>
    cases step with
    | retire => exact List.erase_sublist
    | release => exact .refl _
    | _ => exact hsame not_false
  | _ => exact hsame (by simp [Change.Touches, Aspect.OfWiring, Aspect.OfResolution, Aspect.OfFiring])

theorem distinct_of_spawned (hd : h.liveIds.Nodup) (hfree : ¬h.IsLive id) (isDebugger : Bool) :
    (h.spawn id isDebugger).2.liveIds.Nodup := by
  obtain ⟨hok, herror⟩ := registered_of_spawned h id isDebugger
  unfold liveIds
  cases hmade : (h.spawn id isDebugger).1 with
  | error e =>
    rw [herror e hmade]
    exact hd
  | ok who =>
    obtain ⟨hid, hreg⟩ := hok who hmade
    rw [hreg, List.map_append, List.map_singleton, hid]
    refine List.nodup_append.mpr ⟨hd, List.nodup_singleton id, fun a ha b hb => ?_⟩
    rw [List.mem_singleton.mp hb]
    rintro rfl
    exact hfree (mem_liveIds.mp ha)

/-- A change that is careful leaves every id with one live instance. -/
theorem distinct_on (hd : h.liveIds.Nodup) (hx : x.IsCareful h) : (x.on h).liveIds.Nodup := by
  by_cases hspawn : ∃ id isDebugger, x = .spawn id isDebugger
  · obtain ⟨id, isDebugger, rfl⟩ := hspawn
    exact distinct_of_spawned hd hx isDebugger
  by_cases hturn : ∃ link, x = .turnOn link
  · obtain ⟨link, rfl⟩ := hturn
    show (h.turnOn link).liveIds.Nodup
    unfold turnOn
    split
    · next l hp =>
      split
      · have hlink : h.link? link = some l := link?_eq_some.mpr hp
        by_cases hlive : h.IsLive l.target.id
        · rw [callLink_of_live hlive (hx l hlink)]
          exact hd
        · rw [callLink_turnOn]
          have hspawned := distinct_of_spawned hd hlive false
          split
          · exact hd
          · rcases hs : h.spawn l.target.id false with ⟨made, h₁⟩
            rw [hs] at hspawned
            cases made with
            | error e => exact hspawned
            | ok who =>
              unfold liveIds
              rw [registered_retarget]
              exact hspawned
      · exact hd
    · exact hd
  · refine hd.sublist ((sublist_on ?_ ?_ h).map _)
    · exact fun id isDebugger heq => hspawn ⟨id, isDebugger, heq⟩
    · exact fun link heq => hturn ⟨link, heq⟩

theorem distinct_of_evolves {h₀ : Host} {past : List (Host × Change)} (he : Evolves h₀ past h)
    (hd : h₀.liveIds.Nodup) (hcareful : ∀ p ∈ past, p.2.IsCareful p.1) : h.liveIds.Nodup := by
  induction he with
  | refl => exact hd
  | change _ ih =>
    rw [List.forall_mem_append, List.forall_mem_singleton] at hcareful
    exact distinct_on (ih hcareful.1) hcareful.2
  | quiet _ hq ih =>
    unfold liveIds
    rw [(hq.agrees .registered not_false).1]
    exact ih hcareful

/-! ## 3. For every host -/

/-- If an instance of the id of a link's target is live, `turnOn` starts nothing, unless the link lags: then
it starts a second instance, or fails to. So if nobody spawns an id that is live, and nobody turns a link
on that lags, no two live instances share an id. -/
theorem turnOn_starts_second_if_lagging (setup : HostSetup) (tree : FileTree) (store : ConfigStore)
    {past : List (Host × Change)} (he : Evolves (.new setup tree store) past h) :
    (∀ link l, h.link? link = some l → h.IsLive l.target.id →
      (¬h.Lags l → h.callLink link l "turnOn" = (.results [], h) ∧ h.turnOn link = h) ∧
      (h.Lags l → l.hasHost = true →
        (∀ who, (h.spawn l.target.id false).1 = .ok who →
          (h.turnOn link).liveIds = h.liveIds ++ [l.target.id] ∧ l.target.id ∈ h.liveIds) ∧
        ∀ e, (h.spawn l.target.id false).1 = .error e →
          (h.turnOn link).liveIds = h.liveIds)) ∧
    ((∀ p ∈ past, p.2.IsCareful p.1) → h.liveIds.Nodup) := by
  refine ⟨fun link l hlink hlive => ⟨fun hl => ?_, fun hl hhost => ?_⟩,
    distinct_of_evolves he List.nodup_nil⟩
  · have hcall := callLink_of_live hlive hl link
    refine ⟨hcall, ?_⟩
    unfold turnOn
    rw [link?_eq_some.mp hlink]
    dsimp only
    rw [hcall]
    split <;> rfl
  · have hturn : h.turnOn link = (h.callLink link l "turnOn").2 := by
      unfold turnOn
      rw [link?_eq_some.mp hlink]
      exact if_pos hhost
    obtain ⟨hok, herror⟩ := registered_callLink_of_lags hl link
    unfold liveIds
    rw [hturn]
    refine ⟨fun who hmade => ?_, fun e hmade => ?_⟩
    · obtain ⟨hid, hreg⟩ := hok who hmade
      rw [hreg, List.map_append, List.map_singleton, hid]
      exact ⟨rfl, mem_liveIds.mpr hlive⟩
    · rw [herror e hmade]

end

/-- A link to the first instance of an id. -/
def outdated : Link := { target := ⟨2, 2⟩, hasHost := true, binding := none }

/-- An instance goes, and its id is started anew. The link still stands for the one that is gone. -/
def renewal : List Change :=
  [.spawn 1 false, .spawn 2 false, .supply "link" (.link outdated), .teardown ⟨2, 2⟩ .retire,
    .spawn 2 false]

/-- Every spawn was careful, so no id is live twice; turning the link on starts a second instance. -/
theorem turnOn_starts_second_if_lagging_outdated :
    ∃ past h, Evolves spawning past h ∧ (∀ p ∈ past, p.2.IsCareful p.1) ∧ h.liveIds.Nodup ∧
      h.Lags outdated ∧ (h.turnOn "link").liveIds = [1, 2, 2] := by
  let renewed : Host := renewal.foldl (fun h x => x.on h) spawning
  have he : Evolves spawning (spawning.traceOf renewal) renewed := evolves_traceOf ..
  have hcareful : ∀ p ∈ spawning.traceOf renewal, p.2.IsCareful p.1 := by
    simp only [renewal, traceOf, List.forall_mem_cons]
    refine ⟨?_, ?_, trivial, trivial, ?_, by simp⟩
    all_goals
      simp only [Change.IsCareful]
      decide +kernel
  obtain ⟨hturn, hdistinct⟩ := turnOn_starts_second_if_lagging _ _ _ he
  have hlink : renewed.link? "link" = some outdated := by decide +kernel
  have hlags : renewed.Lags outdated := by decide +kernel
  obtain ⟨-, hsecond⟩ := hturn "link" outdated hlink hlags.2
  obtain ⟨hok, -⟩ := hsecond hlags rfl
  have hlive : renewed.liveIds = [1, 2] := by decide +kernel
  refine ⟨_, renewed, he, hcareful, hdistinct hcareful, hlags, ?_⟩
  have hmakes : (renewed.spawn 2 false).1.isOk = true := by decide +kernel
  cases hmade : (renewed.spawn 2 false).1 with
  | error e =>
    rw [hmade] at hmakes
    cases hmakes
  | ok who =>
    rw [(hok who hmade).1, hlive]
    rfl

end Host

end ComputerHost

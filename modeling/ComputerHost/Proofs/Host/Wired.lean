import ComputerHost.Proofs.Host.Roster
import ComputerHost.Proofs.Host.Wiring

/-!
# How links are wired

That a link stands for a computer is written down three times: at the side of the computer that the link
is attached to, in the link, which knows its target and its place, and with the target in the registry.

`Indexed` says that the references of the registry are those that the links tell of; it is respected by
whatever is told to a single link. `Placed` says that the links know their places, and `Wired` is all of
it together.

Results:
1. `indexed_tellAttached`, `indexed_tellDetached`, `indexed_retarget`: the index.
2. `wired_attach`, `wired_detach`, `wired_turnOn`, `wired_on`: the operations, and every change that is not a
   move of a teardown.
-/

namespace ComputerHost.Host

/-- A link at a place stands for a target. -/
def Bound (h : Host) (place : Binding) (target : Handle) : Prop :=
  ∃ name l, h.link? name = some l ∧ l.binding = some place ∧ l.target = target

/-- The references to a computer are the places where links stand for it, each of them once. For the
targets in `lost` that is not known. -/
structure Indexed (lost : Handle → Prop) (h : Host) : Prop where
  hosted : ∀ name l, h.link? name = some l → l.hasHost = true
  /-- No two links are at one place. -/
  apart : ∀ name name' l l' place, h.link? name = some l → h.link? name' = some l' →
    l.binding = some place → l'.binding = some place → name = name'
  exact : ∀ target, ¬lost target → ∀ ref,
    ref ∈ h.registry.referencesTo target ↔ h.Bound ⟨ref.referencer, ref.side⟩ target
  nodup : ∀ target, (h.registry.referencesTo target).Nodup
  tidy : h.registry.Tidy

/-- A link is at the side where it believes to be, and nowhere else. -/
def Placed (h : Host) : Prop :=
  ∀ name l, h.link? name = some l → ∀ who side,
    l.binding = some ⟨who, side⟩ ↔ (side, name) ∈ h.sidesOf who

/-- The index, the links and the sides of the computers agree, but for the references to the targets in
`lost`. -/
structure WiredBut (lost : Handle → Prop) (h : Host) : Prop where
  rostered : Rostered h
  indexed : Indexed lost h
  placed : Placed h
  /-- There is one peripheral at a side at most. -/
  sides : ∀ who, ((h.sidesOf who).map (·.1)).Nodup
  /-- Who is not registered has nothing attached. -/
  live : ∀ who, who ∉ h.registry.registered → h.sidesOf who = []
  named : ∀ who side name, (side, name) ∈ h.sidesOf who → (h.peripheral? name).isSome = true

abbrev Wired (h : Host) : Prop := WiredBut (fun _ => False) h

/-! ## 1. The index -/

section
variable {lost : Handle → Prop} {h h' : Host} {who w target : Handle} {side name : String} {l : Link}
  {place : Binding}

theorem indexed_of_same (hi : Indexed lost h) (hlink : ∀ name, h'.link? name = h.link? name)
    (hrefs : h'.registry.references = h.registry.references) : Indexed lost h' := by
  have hto : h'.registry.referencesTo = h.registry.referencesTo := by
    unfold Registry.referencesTo
    rw [hrefs]
  have htidy : h'.registry.Tidy ↔ h.registry.Tidy := by
    unfold Registry.Tidy
    rw [hrefs]
  have hbound : h'.Bound = h.Bound := by
    unfold Bound
    simp only [hlink]
  constructor
  case tidy => exact htidy.mpr hi.tidy
  all_goals simp only [hlink, hto, hbound]
  case hosted => exact hi.hosted
  case apart => exact hi.apart
  case exact => exact hi.exact
  case nodup => exact hi.nodup

theorem indexed_of_differs {at₁ : Aspect → Prop} (hi : Indexed lost h) (hd : Differs at₁ h h')
    (hp : ¬at₁ .peripherals) (hr : ¬at₁ .references) : Indexed lost h' :=
  indexed_of_same hi (link?_of_agrees (hd.agrees .peripherals hp)) (hd.agrees .references hr)

/-- A link without a place, or with another target or another place, stands for nobody else. -/
theorem bound_of_link? {l' : Link}
    (hlink : ∀ n, h'.link? n = if n = name then some l' else h.link? n) :
    h'.Bound place target ↔ (l'.binding = some place ∧ l'.target = target) ∨
      ∃ n m, n ≠ name ∧ h.link? n = some m ∧ m.binding = some place ∧ m.target = target := by
  constructor
  · rintro ⟨n, m, hm, hrest⟩
    rw [hlink] at hm
    split at hm
    · cases hm
      exact .inl hrest
    · next hn => exact .inr ⟨n, m, hn, hm, hrest⟩
  · rintro (hrest | ⟨n, m, hn, hm, hrest⟩)
    · exact ⟨name, l', by rw [hlink, if_pos rfl], hrest⟩
    · exact ⟨n, m, by rw [hlink, if_neg hn]; exact hm, hrest⟩

/-- One link is changed, and the references with it. -/
theorem indexed_of_link? {l' : Link} (hi : Indexed lost h) (hl : h.link? name = some l)
    (hlink : ∀ n, h'.link? n = if n = name then some l' else h.link? n) (hhost : l'.hasHost = true)
    (hfree : ∀ n m place, n ≠ name → h.link? n = some m → m.binding = some place →
      l'.binding ≠ some place)
    (hrefs : ∀ target ref, ref ∈ h'.registry.referencesTo target ↔
      (ref ∈ h.registry.referencesTo target ∧
        ¬(l.binding = some ⟨ref.referencer, ref.side⟩ ∧ l.target = target)) ∨
      (l'.binding = some ⟨ref.referencer, ref.side⟩ ∧ l'.target = target))
    (hnodup : ∀ target, (h'.registry.referencesTo target).Nodup) (htidy : h'.registry.Tidy) :
    Indexed lost h' where
  hosted n m hm := by
    rw [hlink] at hm
    split at hm
    · cases hm
      exact hhost
    · exact hi.hosted n m hm
  apart n n' m m' place hm hm' hplace hplace' := by
    rw [hlink] at hm hm'
    split at hm
    · next hn =>
      cases hm
      split at hm'
      · next hn' => exact hn.trans hn'.symm
      · next hn' => exact absurd hplace (hfree n' m' place hn' hm' hplace')
    · next hn =>
      split at hm'
      · cases hm'
        exact absurd hplace' (hfree n m place hn hm hplace)
      · exact hi.apart n n' m m' place hm hm' hplace hplace'
  -- What is bound is bound by the changed link or by another, and no two are bound at one place.
  exact target hlost ref := by
    rw [hrefs, bound_of_link? hlink, hi.exact target hlost, or_comm]
    refine or_congr_right ⟨?_, ?_⟩
    · rintro ⟨⟨n, m, hm, hplace, ht⟩, hno⟩
      refine ⟨n, m, fun hn => hno ?_, hm, hplace, ht⟩
      rw [hn, hl] at hm
      cases hm
      exact ⟨hplace, ht⟩
    · rintro ⟨n, m, hn, hm, hplace, ht⟩
      exact ⟨⟨n, m, hm, hplace, ht⟩, fun hno => hn (hi.apart n name m l _ hm hl hplace hno.1)⟩
  nodup := hnodup
  tidy := htidy

theorem indexed_tellAttached (hi : Indexed lost h)
    (hloose : ∀ l, h.link? name = some l → l.binding = none)
    (hfree : ∀ n m, h.link? n = some m → m.binding ≠ some ⟨w, side⟩) :
    Indexed lost (h.tellAttached name w side) := by
  cases hl : h.link? name with
  | none =>
    exact indexed_of_differs hi (differs_tellAttached_device hl w side) Aspect.noConfusion
      Aspect.noConfusion
  | some l =>
    have hhost := hi.hosted name l hl
    have hlink (n : String) : (h.tellAttached name w side).link? n =
        if n = name then some (l.boundTo ⟨w, side⟩) else h.link? n := by
      rw [link?_tellAttached]
      split
      · next hn => rw [hn, hl]; rfl
      · rfl
    rw [tellAttached_of_link hl hhost] at hlink ⊢
    refine indexed_of_link? hi hl hlink hhost ?_ ?_ ?_ ?_
    · rintro n m place - hm hplace heq
      exact hfree n m hm (hplace.trans heq.symm)
    · intro target ref
      obtain ⟨referencer, s⟩ := ref
      rw [Registry.mem_addReference, hloose l hl]
      simp [Link.boundTo, and_comm, eq_comm]
    · exact Registry.nodup_addReference hi.nodup _ _ _
    · exact Registry.tidy_addReference hi.tidy _ _ _

theorem indexed_tellDetached (hi : Indexed lost h) (name : String) (w : Handle) :
    Indexed lost (h.tellDetached name w) := by
  cases hl : h.link? name with
  | none =>
    exact indexed_of_differs hi (differs_tellDetached_device hl w) Aspect.noConfusion
      Aspect.noConfusion
  | some l =>
    have hhost := hi.hosted name l hl
    have hlink (n : String) : (h.tellDetached name w).link? n =
        if n = name then some l.unbound else h.link? n := by
      rw [link?_tellDetached]
      split
      · next hn => rw [hn, hl]; rfl
      · rfl
    rw [tellDetached_of_link hl hhost] at hlink ⊢
    refine indexed_of_link? hi hl hlink hhost (fun _ _ _ _ _ _ hn => by cases hn) ?_ ?_ ?_
    · intro target ref
      obtain ⟨referencer, s⟩ := ref
      cases hb : l.binding with
      | none => simp [Link.unbound]
      | some b =>
        obtain ⟨owner, s'⟩ := b
        simp only [Registry.mem_removeReference]
        simp [Link.unbound, and_comm, eq_comm]
    · cases l.binding with
      | none => exact hi.nodup
      | some b => exact Registry.nodup_removeReference hi.nodup _ _ _
    · cases l.binding with
      | none => exact hi.tidy
      | some b => exact Registry.tidy_removeReference hi.tidy _ _ _

theorem indexed_retarget (hi : Indexed lost h) (hl : h.link? name = some l) (target : Handle) :
    Indexed lost (h.retarget name l target) := by
  have hlink := link?_setPeripheral hl { l with target }
  rw [retarget_eq]
  refine indexed_of_link? hi hl hlink (hi.hosted name l hl) ?_ ?_ ?_ ?_
  · exact fun n m place hn hm hplace heq => hn (hi.apart n name m l place hm hl hplace heq)
  · intro who ref
    obtain ⟨referencer, s⟩ := ref
    cases hb : l.binding with
    | none => simp
    | some b =>
      obtain ⟨owner, s'⟩ := b
      simp only [Registry.mem_addReference, Registry.mem_removeReference]
      simp [and_comm, eq_comm]
  · cases l.binding with
    | none => exact hi.nodup
    | some b =>
      exact Registry.nodup_addReference (Registry.nodup_removeReference hi.nodup _ _ _) _ _ _
  · cases l.binding with
    | none => exact hi.tidy
    | some b => exact Registry.tidy_addReference (Registry.tidy_removeReference hi.tidy _ _ _) _ _ _

theorem link?_addPeripheral {p : Peripheral} (hp : h.peripheral? name = none) {n : String} {m : Link} :
    (h.addPeripheral name p).link? n = some m ↔ h.link? n = some m ∨ n = name ∧ p = .link m := by
  rw [link?_eq_some, link?_eq_some, peripheral?_addPeripheral]
  by_cases hn : n = name
  · subst hn
    simp [hp]
  · simp [hn]

/-- A new link is not bound, so the bindings are those of before. -/
theorem bound_addPeripheral {p : Peripheral} (hp : h.peripheral? name = none)
    (hnew : ∀ l, p = .link l → l.binding = none) (place : Binding) (target : Handle) :
    (h.addPeripheral name p).Bound place target ↔ h.Bound place target := by
  constructor
  · rintro ⟨n, m, hm, hplace, ht⟩
    rcases (link?_addPeripheral hp).mp hm with hm | ⟨-, heq⟩
    · exact ⟨n, m, hm, hplace, ht⟩
    · rw [hnew m heq] at hplace
      cases hplace
  · rintro ⟨n, m, hm, hrest⟩
    exact ⟨n, m, (link?_addPeripheral hp).mpr (.inl hm), hrest⟩

theorem registry_addPeripheral (h : Host) (name : String) (p : Peripheral) :
    (h.addPeripheral name p).registry = h.registry := by
  unfold addPeripheral
  split <;> rfl

theorem indexed_addPeripheral {p : Peripheral} (hi : Indexed lost h) (hp : h.peripheral? name = none)
    (hnew : ∀ l, p = .link l → l.binding = none ∧ l.hasHost = true) :
    Indexed lost (h.addPeripheral name p) := by
  have hregistry := registry_addPeripheral h name p
  refine ⟨fun n m hm => ?_, fun n n' m m' place hm hm' hplace hplace' => ?_, fun target hlost ref => ?_,
    hregistry ▸ hi.nodup, hregistry ▸ hi.tidy⟩
  · rcases (link?_addPeripheral hp).mp hm with hm | ⟨-, heq⟩
    · exact hi.hosted n m hm
    · exact (hnew m heq).2
  · rcases (link?_addPeripheral hp).mp hm with hm | ⟨-, heq⟩
    · rcases (link?_addPeripheral hp).mp hm' with hm' | ⟨-, heq⟩
      · exact hi.apart n n' m m' place hm hm' hplace hplace'
      · rw [(hnew m' heq).1] at hplace'
        cases hplace'
    · rw [(hnew m heq).1] at hplace
      cases hplace
  · rw [hregistry, bound_addPeripheral hp fun l heq => (hnew l heq).1]
    exact hi.exact target hlost ref

/-! ## 2. The operations -/

/-- What leaves sides, links and references alone, when nobody is taken out of the registry. -/
theorem wired_of_differs {at₁ : Aspect → Prop} (hw : WiredBut lost h) (hd : Differs at₁ h h')
    (hr : Rostered h') (hsides : ∀ who, ¬at₁ (.sides who)) (hp : ¬at₁ .peripherals)
    (hrefs : ¬at₁ .references)
    (hreg : ∀ who ∈ h.registry.registered, who ∈ h'.registry.registered) : WiredBut lost h' := by
  have hsame (who : Handle) : h'.sidesOf who = h.sidesOf who := hd.agrees (.sides who) (hsides who)
  have hlink := link?_of_agrees (hd.agrees .peripherals hp)
  refine ⟨hr, indexed_of_differs hw.indexed hd hp hrefs, fun name l hl who side => ?_, fun who => ?_,
    fun who hno => ?_, fun who side name hm => ?_⟩
  · rw [hsame]
    exact hw.placed name l (hlink name ▸ hl) who side
  · rw [hsame]
    exact hw.sides who
  · rw [hsame]
    exact hw.live who fun hm => hno (hreg who hm)
  · rw [isSome_peripheral?_of_agrees (hd.agrees .peripherals hp)]
    exact hw.named who side name (hsame who ▸ hm)

/-- The sides after a peripheral was attached. -/
theorem placed_attach (hw : WiredBut lost h) (ha : (h.attach who side name).1 = true)
    (hloose : ∀ l, h.link? name = some l → ∀ w s, (s, name) ∉ h.sidesOf w) :
    Placed (h.attach who side name).2 := by
  intro n m hm w s
  rw [link?_attach ha] at hm
  rw [sidesOf_attach ha]
  split at hm
  · next hn =>
    subst hn
    obtain ⟨l, hl, rfl⟩ := Option.map_eq_some_iff.mp hm
    have hno := hloose l hl
    by_cases hwho : w = who
    · subst hwho
      simp [Link.boundTo, hno, eq_comm]
    · simp [Link.boundTo, hno, hwho, Ne.symm hwho]
  · next hn =>
    rw [hw.placed n m hm]
    by_cases hwho : w = who
    · simp [hwho, hn]
    · rw [if_neg hwho]

theorem wired_attach (hw : Wired h) (hreg : who ∈ h.registry.registered)
    (hloose : (h.attach who side name).1 = true → ∀ l, h.link? name = some l →
      ∀ w s, (s, name) ∉ h.sidesOf w) : Wired (h.attach who side name).2 := by
  cases ha : (h.attach who side name).1 with
  | false =>
    rcases attach_cases h who side name with heq | ⟨-, -, -, heq⟩
    · rwa [heq]
    · rw [heq] at ha
      cases ha
  | true =>
    obtain ⟨hc, hfree, ⟨p, hp⟩, heq⟩ := attach_ok ha
    have hd := differs_attach h who side name
    have hsides := sidesOf_attach ha
    -- A bound link would be at a side already.
    have hunbound (l : Link) (hl : h.link? name = some l) : l.binding = none := by
      cases hb : l.binding with
      | none => rfl
      | some b => exact absurd ((hw.placed name l hl b.owner b.side).mp hb) (hloose ha l hl _ _)
    refine ⟨rostered_of_differs hw.rostered hd not_false not_false, ?_, placed_attach hw ha (hloose ha),
      fun w => ?_, fun w hno => ?_, fun w s n hm => ?_⟩
    · rw [heq]
      have hset := indexed_of_differs hw.indexed
        (differs_sides h who fun c => c.peripherals ++ [(side, name)]) Aspect.noConfusion
        Aspect.noConfusion
      refine indexed_of_differs (indexed_tellAttached hset hunbound fun n m hm hb => ?_)
        (differs_queueEvent _ who _) Aspect.noConfusion Aspect.noConfusion
      have hat := (hw.placed n m hm who side).mp hb
      rw [lookup_of_mem (hw.sides who) hat] at hfree
      cases hfree
    · rw [hsides]
      split
      · rw [List.map_append]
        refine List.nodup_append.mpr ⟨hw.sides who, List.nodup_cons.mpr ⟨List.not_mem_nil, .nil⟩, ?_⟩
        rintro a hmem b hb rfl
        obtain ⟨entry, hentry, rfl⟩ := List.mem_map.mp hmem
        refine bne_iff_ne.mp (List.lookup_eq_none_iff.mp hfree entry hentry) ?_
        simpa [eq_comm] using hb
      · exact hw.sides w
    · rw [hsides, if_neg fun heq => hno ?_]
      · exact hw.live w fun hmem => hno ((hd.agrees .registered not_false).1.symm ▸ hmem)
      · rw [(hd.agrees .registered not_false).1, heq]
        exact hreg
    · rw [isSome_attach ha]
      rw [hsides] at hm
      split at hm
      · rcases List.mem_append.mp hm with hm | hm
        · exact hw.named who s n hm
        · cases List.mem_singleton.mp hm
          rw [hp]
          rfl
      · exact hw.named w s n hm

/-- A side has one peripheral, so what goes with it is that one and nothing else. -/
theorem mem_sidesOf_detach {w : Handle} {s n : String} : (s, n) ∈ (h.detach who side).2.sidesOf w ↔
    (s, n) ∈ h.sidesOf w ∧ ¬(w = who ∧ s = side) := by
  rw [sidesOf_detach]
  by_cases hwho : w = who
  · simp [hwho]
  · simp [hwho]

theorem placed_detach (hw : WiredBut lost h) (hs : (h.sidesOf who).lookup side = some name) :
    Placed (h.detach who side).2 := by
  intro n m hm w s
  rw [link?_detach hs] at hm
  rw [mem_sidesOf_detach]
  split at hm
  · next hn =>
    subst hn
    obtain ⟨l, hl, rfl⟩ := Option.map_eq_some_iff.mp hm
    have hplace := (hw.placed n l hl who side).mpr (mem_of_lookup hs)
    refine iff_of_false (fun hn => by cases hn) fun ⟨hmem, hno⟩ => hno ?_
    have hplace' := (hw.placed n l hl w s).mpr hmem
    rw [hplace] at hplace'
    cases hplace'
    exact ⟨rfl, rfl⟩
  · next hn =>
    rw [hw.placed n m hm, iff_self_and]
    rintro hmem ⟨rfl, rfl⟩
    have hname := lookup_of_mem (hw.sides w) hmem
    rw [hs] at hname
    exact hn (Option.some.inj hname).symm

theorem wired_detach (hw : WiredBut lost h) (who : Handle) (side : String) :
    WiredBut lost (h.detach who side).2 := by
  cases hs : (h.sidesOf who).lookup side with
  | none =>
    rcases detach_cases h who side with ⟨-, heq⟩ | ⟨name, hs', -⟩
    · rwa [heq]
    · rw [hs] at hs'
      cases hs'
  | some name =>
    have hd := differs_detach h who side
    refine ⟨rostered_of_differs hw.rostered hd not_false not_false, ?_, placed_detach hw hs,
      fun w => ?_, fun w hno => ?_, fun w s n hm => ?_⟩
    · rw [detach_of_found hs]
      have hset := indexed_of_differs hw.indexed
        (differs_sides h who fun c => c.peripherals.filter (·.1 != side)) Aspect.noConfusion
        Aspect.noConfusion
      exact indexed_of_differs (indexed_tellDetached hset name who)
        (differs_queueEvent _ who _) Aspect.noConfusion Aspect.noConfusion
    · rw [sidesOf_detach]
      split
      · exact (hw.sides who).sublist (List.filter_sublist.map _)
      · exact hw.sides w
    · have hnone := hw.live w fun hmem => hno ((hd.agrees .registered not_false).1.symm ▸ hmem)
      refine List.eq_nil_iff_forall_not_mem.mpr fun (s, n) hm => ?_
      have hmem := (mem_sidesOf_detach.mp hm).1
      rw [hnone] at hmem
      cases hmem
    · rw [isSome_detach hs]
      exact hw.named w s n (mem_sidesOf_detach.mp hm).1

theorem registered_spawn (id : UInt32) (isDebugger : Bool) (hm : who ∈ h.registry.registered) :
    who ∈ (h.spawn id isDebugger).2.registry.registered := by
  rcases hs : h.spawn id isDebugger with ⟨made, h₁⟩
  cases made with
  | ok v =>
    obtain ⟨-, -, hreg, -⟩ := spawn_ok hs
    rw [hreg]
    exact List.mem_append_left _ hm
  | error e => exact ((differs_of_spawn_error hs).agrees .registered nofun).1.symm ▸ hm

theorem wired_spawn (hw : Wired h) (id : UInt32) (isDebugger : Bool) :
    Wired (h.spawn id isDebugger).2 :=
  wired_of_differs hw (differs_spawn ..) (rostered_spawn hw.rostered ..) (fun _ => not_false) not_false
    not_false fun _ => registered_spawn id isDebugger

theorem wired_retarget (hw : Wired h) (hl : h.link? name = some l) (target : Handle) :
    Wired (h.retarget name l target) := by
  have hd := differs_retarget h name l target
  have hsides (w : Handle) : (h.retarget name l target).sidesOf w = h.sidesOf w :=
    hd.agrees (.sides w) (by simp)
  have hreg := (hd.agrees .registered (by simp)).1
  refine ⟨rostered_of_differs hw.rostered hd (by simp) (by simp), indexed_retarget hw.indexed hl target,
    fun n m hm w s => ?_, fun w => ?_, fun w hno => ?_, fun w s n hm => ?_⟩
  · rw [hsides]
    rw [retarget_eq] at hm
    have hset := link?_setPeripheral hl { l with target } n
    have hm' := hset.symm.trans hm
    split at hm'
    · next hn =>
      cases hm'
      rw [hn]
      exact hw.placed name l hl w s
    · exact hw.placed n m hm' w s
  · rw [hsides]
    exact hw.sides w
  · rw [hsides]
    exact hw.live w (hreg ▸ hno)
  · rw [retarget_eq]
    exact (isSome_setPeripheral ..).trans (hw.named w s n (hsides w ▸ hm))

theorem wired_turnOn (hw : Wired h) (link : String) : Wired (h.turnOn link) := by
  obtain heq | ⟨l, hp, heq | ⟨v, -, heq⟩⟩ := turnOn_cases h link <;> rw [heq]
  · exact hw
  · exact wired_spawn hw l.target.id false
  · have hlink := link?_of_agrees
      ((differs_spawn h l.target.id false).agrees .peripherals not_false) link
    exact wired_retarget (wired_spawn hw l.target.id false) (hlink.trans (link?_eq_some.mpr hp)) v

/-- A new peripheral is not attached. -/
theorem wired_supply (hw : Wired h) {p : Peripheral}
    (hnew : ∀ l, p = .link l → l.binding = none ∧ l.hasHost = true) :
    Wired (h.addPeripheral name p) := by
  cases hp : h.peripheral? name with
  | some q =>
    have hsame : h.addPeripheral name p = h := if_pos (by rw [hp]; rfl)
    rwa [hsame]
  | none =>
    have hd := differs_addPeripheral h name p
    have hsides (w : Handle) : (h.addPeripheral name p).sidesOf w = h.sidesOf w :=
      hd.agrees (.sides w) Aspect.noConfusion
    refine ⟨rostered_of_differs hw.rostered hd Aspect.noConfusion Aspect.noConfusion,
      indexed_addPeripheral hw.indexed hp hnew, fun n m hm w s => ?_, fun w => ?_, fun w hno => ?_,
      fun w s n hm => ?_⟩
    · rw [hsides]
      rcases (link?_addPeripheral hp).mp hm with hm | ⟨rfl, heq⟩
      · exact hw.placed n m hm w s
      · rw [(hnew m heq).1]
        refine iff_of_false (fun hn => by cases hn) fun hmem => ?_
        have hsome := hw.named w s n hmem
        rw [hp] at hsome
        cases hsome
    · rw [hsides]
      exact hw.sides w
    · rw [hsides]
      exact hw.live w (registry_addPeripheral h name p ▸ hno)
    · rw [hsides] at hm
      rw [peripheral?_addPeripheral]
      obtain ⟨q, hq⟩ := Option.isSome_iff_exists.mp (hw.named w s n hm)
      rw [hq]
      rfl

theorem wired_on (hw : Wired h) {x : Change}
    (hattach : ∀ who side name, x = .attach who side name → who ∈ h.registry.registered ∧
      ((h.attach who side name).1 = true → ∀ l, h.link? name = some l → ∀ w s, (s, name) ∉ h.sidesOf w))
    (hsupply : ∀ name p, x = .supply name p → ∀ l, p = .link l → l.binding = none ∧ l.hasHost = true)
    (hwhole : ∀ who step, x ≠ .teardown who step) : Wired (x.on h) := by
  have hd := differs_on x h
  have hr := rostered_on hw.rostered x
  cases x with
  | attach who side name =>
    obtain ⟨hreg, hloose⟩ := hattach who side name rfl
    exact wired_attach hw hreg hloose
  | detach who side => exact wired_detach hw who side
  | spawn id isDebugger => exact wired_spawn hw id isDebugger
  | turnOn link => exact wired_turnOn hw link
  | supply name p => exact wired_supply hw (hsupply name p rfl)
  | teardown who step => exact absurd rfl (hwhole who step)
  | resolve | fire =>
    exact wired_of_differs hw hd hr (fun _ => not_false) not_false not_false
      fun w hm => (hd.agrees .registered not_false).1.symm ▸ hm
  | _ =>
    refine wired_of_differs hw hd hr (fun _ => ?_) ?_ ?_
      fun w hm => (hd.agrees .registered ?_).1.symm ▸ hm
    all_goals simp [Change.Touches]

theorem wired_new (setup : HostSetup) (tree : FileTree) (store : ConfigStore) :
    Wired (Host.new setup tree store) where
  rostered := rostered_new setup tree store
  indexed := {
    hosted := fun _ _ hl => by cases hl
    apart := fun _ _ _ _ _ hl => by cases hl
    exact := fun _ _ _ => iff_of_false List.not_mem_nil fun ⟨_, _, hl, _⟩ => by cases hl
    nodup := fun _ => List.nodup_nil
    tidy := Registry.tidy_empty }
  placed _ _ hl := by cases hl
  sides _ := List.nodup_nil
  live _ _ := rfl
  named _ _ _ hm := by cases hm

end

end ComputerHost.Host

import ComputerHost.Proofs.Host.Footprint
import ComputerHost.Proofs.Host.References

/-!
# Wiring

What attaching a peripheral and letting go of it do to each thing that can be read off a host: the sides
of a computer, its queue, what is in its custody, the links, and the references to each computer. What is
not said here is untouched (`differs_attach`, `differs_detach`).

Results:
1. `link?_tellDetached`, `custodyOf_tellAttached`, …: what peripherals are told.
2. `attach_cases`, `sidesOf_attach`, …: attaching.
3. `detach_cases`, `sidesOf_detach`, …: letting go.
-/

namespace ComputerHost

/-- What is noted when a peripheral is told that it is attached. -/
def Peripheral.attachDeed (name : String) : Peripheral → Deed
  | .device _ => .attached name
  | .link _ => .linked name

/-- What is noted when a peripheral is told that it is let go. -/
def Peripheral.detachDeed (name : String) : Peripheral → Deed
  | .device _ => .detached name
  | .link _ => .unlinked name

/-- A link that is attached at a place. -/
def Link.boundTo (l : Link) (place : Binding) : Link := { l with binding := some place }

/-- A link that is not attached. -/
def Link.unbound (l : Link) : Link := { l with binding := none }

/-- The event about a peripheral that is let go. -/
def Event.detached (side : String) : Event := ⟨"peripheral_detach", [.text side]⟩

namespace Host

/-- The link of a name. -/
def link? (h : Host) (name : String) : Option Link := (h.peripheral? name).bind Peripheral.link?

section
variable {h h' : Host} {who w : Handle} {side name other : String} {l : Link} {p : Peripheral}

/-! ## 1. What peripherals are told -/

theorem link?_of_agrees (ha : Aspect.peripherals.Agrees h h') (name : String) :
    h'.link? name = h.link? name := by
  have hname := ha name
  unfold link?
  cases hp : h.peripheral? name <;> cases hp' : h'.peripheral? name <;> simp_all

theorem isSome_peripheral?_of_agrees (ha : Aspect.peripherals.Agrees h h') (name : String) :
    (h'.peripheral? name).isSome = (h.peripheral? name).isSome := by
  have hname := congrArg Option.isSome (ha name)
  rwa [Option.isSome_map, Option.isSome_map] at hname

theorem link?_eq_some : h.link? name = some l ↔ h.peripheral? name = some (.link l) := by
  unfold link?
  cases h.peripheral? name with
  | none => simp
  | some p => cases p <;> simp [Peripheral.link?]

theorem link?_setPeripheral (hl : h.link? name = some l) (l' : Link) (other : String) :
    (h.setPeripheral name (.link l')).link? other =
      if other = name then some l' else h.link? other := by
  unfold link?
  rw [peripheral?_setPeripheral]
  split
  · rw [link?_eq_some.mp hl]
    rfl
  · rfl

theorem isSome_setPeripheral (h : Host) (name : String) (p : Peripheral) (other : String) :
    ((h.setPeripheral name p).peripheral? other).isSome = (h.peripheral? other).isSome := by
  rw [peripheral?_setPeripheral]
  split
  · next ho => rw [ho, Option.isSome_map]
  · rfl

theorem peripheral?_addPeripheral (h : Host) (name : String) (p : Peripheral) (other : String) :
    (h.addPeripheral name p).peripheral? other =
      (h.peripheral? other).or (if other = name then some p else none) := by
  unfold addPeripheral
  split
  · next hsome =>
    by_cases ho : other = name
    · obtain ⟨q, hq⟩ := Option.isSome_iff_exists.mp hsome
      rw [ho, hq]
      rfl
    · rw [if_neg ho, Option.or_none]
  · unfold peripheral?
    rw [List.lookup_append]
    congr 1
    by_cases ho : other = name
    · simp [ho]
    · simp [ho, List.lookup_cons, beq_eq_false_iff_ne.mpr ho]

theorem tellAttached_of_link (hl : h.link? name = some l) (hhost : l.hasHost = true) (w : Handle)
    (side : String) :
    h.tellAttached name w side =
      { (h.setPeripheral name (.link (l.boundTo ⟨w, side⟩))).note w (.linked name) with
        registry := h.registry.addReference l.target w side } := by
  unfold tellAttached
  rw [link?_eq_some.mp hl]
  exact if_pos hhost

theorem tellDetached_of_link (hl : h.link? name = some l) (hhost : l.hasHost = true) (w : Handle) :
    h.tellDetached name w =
      { (h.setPeripheral name (.link l.unbound)).note w (.unlinked name) with
        registry := match l.binding with
          | some b => h.registry.removeReference l.target b.owner b.side
          | none => h.registry } := by
  unfold tellDetached
  rw [link?_eq_some.mp hl]
  dsimp only
  cases l.binding with
  | none => rfl
  | some b => exact if_pos hhost

theorem retarget_eq (h : Host) (name : String) (l : Link) (target : Handle) :
    h.retarget name l target =
      { h.setPeripheral name (.link { l with target }) with
        registry := match l.binding with
          | some b => (h.registry.removeReference l.target b.owner b.side).addReference target b.owner
              b.side
          | none => h.registry } := by
  unfold retarget
  dsimp only
  cases l.binding <;> rfl

/-- What a device is told is nothing to links. -/
theorem differs_tellAttached_device (hl : h.link? name = none) (w : Handle) (side : String) :
    Differs (· = .custody w) h (h.tellAttached name w side) := by
  unfold tellAttached
  split
  · next hp => exact (quiet_setDevice hp _).then (differs_note _ w _)
  · next hp =>
    rw [link?_eq_some.mpr hp] at hl
    cases hl
  · exact .refl _ h

theorem differs_tellDetached_device (hl : h.link? name = none) (w : Handle) :
    Differs (· = .custody w) h (h.tellDetached name w) := by
  unfold tellDetached
  split
  · next hp => exact (quiet_setDevice hp _).then (differs_note _ w _)
  · next hp =>
    rw [link?_eq_some.mpr hp] at hl
    cases hl
  · exact .refl _ h

theorem link?_tellAttached (h : Host) (name : String) (w : Handle) (side other : String) :
    (h.tellAttached name w side).link? other =
      if other = name then (h.link? other).map (·.boundTo ⟨w, side⟩) else h.link? other := by
  cases hl : h.link? name with
  | none =>
    rw [link?_of_agrees
      ((differs_tellAttached_device hl w side).agrees .peripherals Aspect.noConfusion)]
    split
    · next ho => rw [ho, hl]; rfl
    · rfl
  | some l =>
    have hset : (h.tellAttached name w side).link? other =
        (h.setPeripheral name (.link (l.boundTo ⟨w, side⟩))).link? other := by
      unfold tellAttached
      rw [link?_eq_some.mp hl]
      dsimp only
      split <;> rfl
    rw [hset, link?_setPeripheral hl]
    split
    · next ho => rw [ho, hl]; rfl
    · rfl

theorem link?_tellDetached (h : Host) (name : String) (w : Handle) (other : String) :
    (h.tellDetached name w).link? other =
      if other = name then (h.link? other).map Link.unbound else h.link? other := by
  cases hl : h.link? name with
  | none =>
    rw [link?_of_agrees ((differs_tellDetached_device hl w).agrees .peripherals Aspect.noConfusion)]
    split
    · next ho => rw [ho, hl]; rfl
    · rfl
  | some l =>
    have hset : (h.tellDetached name w).link? other =
        (h.setPeripheral name (.link l.unbound)).link? other := by
      unfold tellDetached
      rw [link?_eq_some.mp hl]
      dsimp only
      split
      · split <;> rfl
      · rfl
    rw [hset, link?_setPeripheral hl]
    split
    · next ho => rw [ho, hl]; rfl
    · rfl

theorem custodyOf_tellAttached (hp : h.peripheral? name = some p) (w : Handle) (side : String)
    (who : Handle) :
    (h.tellAttached name w side).custodyOf who =
      h.custodyOf who ++ if w = who then [p.attachDeed name] else [] := by
  have hnote (h₁ : Host) (deed : Deed) (hj : h₁.journal = h.journal) (hd : deed.isCustody = true) :
      (h₁.note w deed).custodyOf who = h.custodyOf who ++ if w = who then [deed] else [] := by
    rw [custodyOf_note]
    unfold custodyOf
    simp [hj, hd]
  unfold tellAttached
  rw [hp]
  cases p with
  | device d => exact hnote _ _ rfl rfl
  | link l =>
    dsimp only
    split <;> exact hnote _ _ rfl rfl

theorem custodyOf_tellDetached (hp : h.peripheral? name = some p) (w who : Handle) :
    (h.tellDetached name w).custodyOf who =
      h.custodyOf who ++ if w = who then [p.detachDeed name] else [] := by
  have hnote (h₁ : Host) (deed : Deed) (hj : h₁.journal = h.journal) (hd : deed.isCustody = true) :
      (h₁.note w deed).custodyOf who = h.custodyOf who ++ if w = who then [deed] else [] := by
    rw [custodyOf_note]
    unfold custodyOf
    simp [hj, hd]
  unfold tellDetached
  rw [hp]
  cases p with
  | device d => exact hnote _ _ rfl rfl
  | link l =>
    dsimp only
    split
    · split <;> exact hnote _ _ rfl rfl
    · exact hnote _ _ rfl rfl

/-- Telling a peripheral something makes none known and none unknown. -/
theorem isSome_tellAttached (h : Host) (name : String) (w : Handle) (side other : String) :
    ((h.tellAttached name w side).peripheral? other).isSome = (h.peripheral? other).isSome := by
  unfold tellAttached
  split
  · exact isSome_setPeripheral ..
  · dsimp only
    split <;> exact isSome_setPeripheral ..
  · rfl

theorem isSome_tellDetached (h : Host) (name : String) (w : Handle) (other : String) :
    ((h.tellDetached name w).peripheral? other).isSome = (h.peripheral? other).isSome := by
  unfold tellDetached
  split
  · exact isSome_setPeripheral ..
  · dsimp only
    split
    · split <;> exact isSome_setPeripheral ..
    · exact isSome_setPeripheral ..
  · rfl

theorem peripheral?_tellDetached (hne : other ≠ name) (w : Handle) :
    (h.tellDetached name w).peripheral? other = h.peripheral? other := by
  have hset (p : Peripheral) : (h.setPeripheral name p).peripheral? other = h.peripheral? other := by
    rw [peripheral?_setPeripheral, if_neg hne]
  unfold tellDetached
  split
  · exact hset _
  · dsimp only
    split
    · split <;> exact hset _
    · exact hset _
  · rfl

/-! ## 2. Attaching -/

theorem queue_queueEvent (hc : (h.computer? who).isSome = true) (e : Event) (w : Handle) :
    (h.queueEvent who e).queue w = h.queue w ++ if w = who then [e] else [] := by
  unfold queue queueEvent
  rw [reading_modify (·.queue e) (fun _ => rfl)]
  split
  · next hw =>
    obtain ⟨c, hc⟩ := Option.isSome_iff_exists.mp hc
    rw [hw, hc]
    rfl
  · rw [List.append_nil]

theorem lookup_sidesOf (h : Host) (who : Handle) (side : String) :
    (h.sidesOf who).lookup side = (h.computer? who).bind (·.peripheral? side) := by
  unfold sidesOf Computer.peripheral?
  cases h.computer? who <;> rfl

theorem sidesOf_modify (h : Host) (who : Handle) (g : List (String × String) → List (String × String))
    (hg : g [] = [] ∨ (h.computer? who).isSome = true) (w : Handle) :
    (h.modify who fun c => { c with peripherals := g c.peripherals }).sidesOf w =
      if w = who then g (h.sidesOf who) else h.sidesOf w := by
  unfold sidesOf
  rw [reading_modify (fun c => { c with peripherals := g c.peripherals }) (fun _ => rfl)]
  split
  · cases hc : h.computer? who with
    | none =>
      rcases hg with hg | hg
      · exact hg.symm
      · rw [hc] at hg
        cases hg
    | some c => rfl
  · rfl

/-- A peripheral is attached to a free side of a computer, if there is one of its name. -/
theorem attach_cases (h : Host) (who : Handle) (side name : String) :
    h.attach who side name = (false, h) ∨
      (h.computer? who).isSome = true ∧ (h.sidesOf who).lookup side = none ∧
      (∃ p, h.peripheral? name = some p) ∧
      h.attach who side name = (true,
        ((h.modify who fun c => { c with peripherals := c.peripherals ++ [(side, name)] }).tellAttached
          name who side).queueEvent who ⟨"peripheral", [.text side]⟩) := by
  rw [lookup_sidesOf]
  unfold attach
  cases hc : h.computer? who with
  | none => exact .inl rfl
  | some c =>
    dsimp only
    by_cases hfree : (c.peripheral? side).isSome || (h.peripheral? name).isNone
    · exact .inl (if_pos hfree)
    · rw [Bool.or_eq_true, not_or] at hfree
      obtain ⟨hside, hname⟩ := hfree
      refine .inr ⟨rfl, by simpa using hside, ?_, if_neg ?_⟩
      · exact Option.ne_none_iff_exists'.mp fun hn => hname (by rw [hn]; rfl)
      · rw [Bool.or_eq_true, not_or]
        exact ⟨hside, hname⟩

section
variable (ha : (h.attach who side name).1 = true)
include ha

theorem attach_ok : (h.computer? who).isSome = true ∧ (h.sidesOf who).lookup side = none ∧
    (∃ p, h.peripheral? name = some p) ∧
    (h.attach who side name).2 = ((h.modify who fun c =>
      { c with peripherals := c.peripherals ++ [(side, name)] }).tellAttached name who side).queueEvent
        who ⟨"peripheral", [.text side]⟩ := by
  rcases attach_cases h who side name with heq | ⟨hc, hside, hp, heq⟩
  · rw [heq] at ha
    cases ha
  · exact ⟨hc, hside, hp, by rw [heq]⟩

theorem sidesOf_attach (w : Handle) :
    (h.attach who side name).2.sidesOf w =
      if w = who then h.sidesOf who ++ [(side, name)] else h.sidesOf w := by
  obtain ⟨hc, -, -, heq⟩ := attach_ok ha
  have hsides := sidesOf_modify h who (· ++ [(side, name)]) (.inr hc) w
  rw [heq, ← hsides]
  exact ((differs_queueEvent _ who _).agrees (.sides w) Aspect.noConfusion).trans
    ((differs_tellAttached _ name who side).agrees (.sides w) not_false)

theorem custodyOf_attach (hp : h.peripheral? name = some p) (w : Handle) :
    (h.attach who side name).2.custodyOf w =
      h.custodyOf w ++ if who = w then [p.attachDeed name] else [] := by
  obtain ⟨-, -, -, heq⟩ := attach_ok ha
  rw [heq]
  exact ((differs_queueEvent _ who _).agrees (.custody w) Aspect.noConfusion).trans
    (custodyOf_tellAttached (h := h.modify who _) hp who side w)

theorem link?_attach (other : String) :
    (h.attach who side name).2.link? other =
      if other = name then (h.link? other).map (·.boundTo ⟨who, side⟩) else h.link? other := by
  obtain ⟨-, -, -, heq⟩ := attach_ok ha
  rw [heq]
  exact (link?_of_agrees ((differs_queueEvent _ who _).agrees .peripherals Aspect.noConfusion)
    other).trans (link?_tellAttached (h.modify who _) name who side other)

theorem isSome_attach (other : String) :
    ((h.attach who side name).2.peripheral? other).isSome = (h.peripheral? other).isSome := by
  obtain ⟨-, -, -, heq⟩ := attach_ok ha
  rw [heq]
  exact (isSome_peripheral?_of_agrees
    ((differs_queueEvent _ who _).agrees .peripherals Aspect.noConfusion) other).trans
    (isSome_tellAttached (h.modify who _) name who side other)

end

/-! ## 3. Letting go -/

theorem detach_cases (h : Host) (who : Handle) (side : String) :
    (h.sidesOf who).lookup side = none ∧ h.detach who side = (false, h) ∨
      ∃ name, (h.sidesOf who).lookup side = some name ∧ h.detach who side = (true,
        ((h.modify who fun c => { c with peripherals := c.peripherals.filter (·.1 != side) }).tellDetached
          name who).queueEvent who (.detached side)) := by
  rw [lookup_sidesOf]
  unfold detach
  cases (h.computer? who).bind (·.peripheral? side) with
  | none => exact .inl ⟨rfl, rfl⟩
  | some name => exact .inr ⟨name, rfl, rfl⟩

theorem sidesOf_detach (h : Host) (who : Handle) (side : String) (w : Handle) :
    (h.detach who side).2.sidesOf w =
      if w = who then (h.sidesOf who).filter (·.1 != side) else h.sidesOf w := by
  rcases detach_cases h who side with ⟨hno, heq⟩ | ⟨name, -, heq⟩
  · rw [heq, filter_of_lookup_none hno]
    split
    · next hw => rw [hw]
    · rfl
  · rw [heq, ← sidesOf_modify h who (·.filter (·.1 != side)) (.inl rfl) w]
    exact ((differs_queueEvent _ who _).agrees (.sides w) Aspect.noConfusion).trans
      ((differs_tellDetached _ name who).agrees (.sides w) not_false)

section
variable (hs : (h.sidesOf who).lookup side = some name)
include hs

theorem detach_of_found :
    h.detach who side = (true,
      ((h.modify who fun c => { c with peripherals := c.peripherals.filter (·.1 != side) }).tellDetached
        name who).queueEvent who (.detached side)) := by
  rcases detach_cases h who side with ⟨hno, -⟩ | ⟨name', hs', heq⟩
  · rw [hno] at hs
    cases hs
  · cases hs.symm.trans hs'
    exact heq

theorem custodyOf_detach (hp : h.peripheral? name = some p) (w : Handle) :
    (h.detach who side).2.custodyOf w =
      h.custodyOf w ++ if who = w then [p.detachDeed name] else [] := by
  rw [detach_of_found hs]
  exact ((differs_queueEvent _ who _).agrees (.custody w) Aspect.noConfusion).trans
    (custodyOf_tellDetached (h := h.modify who _) hp who w)

theorem queue_detach (w : Handle) :
    (h.detach who side).2.queue w = h.queue w ++ if w = who then [.detached side] else [] := by
  have hc : (h.computer? who).isSome = true := by
    rw [lookup_sidesOf] at hs
    obtain ⟨c, hc, -⟩ := Option.bind_eq_some_iff.mp hs
    rw [hc]
    rfl
  have htell := differs_tellDetached
    (h.modify who fun c => { c with peripherals := c.peripherals.filter (·.1 != side) }) name who
  have hqueue := (differs_sides h who fun c => c.peripherals.filter (·.1 != side)).agrees (.events w)
    Aspect.noConfusion
  rw [detach_of_found hs]
  refine (queue_queueEvent (htell.known who ?_) _ w).trans ?_
  · exact (differs_sides h who _).known who hc
  · exact congrArg (· ++ _) ((htell.agrees (.events w) not_false).trans hqueue)

theorem link?_detach (other : String) :
    (h.detach who side).2.link? other =
      if other = name then (h.link? other).map Link.unbound else h.link? other := by
  rw [detach_of_found hs]
  exact (link?_of_agrees ((differs_queueEvent _ who _).agrees .peripherals Aspect.noConfusion)
    other).trans (link?_tellDetached (h.modify who _) name who other)

theorem peripheral?_detach (hne : other ≠ name) :
    (h.detach who side).2.peripheral? other = h.peripheral? other := by
  rw [detach_of_found hs]
  exact peripheral?_tellDetached (h := h.modify who _) hne who

theorem isSome_detach (other : String) :
    ((h.detach who side).2.peripheral? other).isSome = (h.peripheral? other).isSome := by
  rw [detach_of_found hs]
  exact (isSome_peripheral?_of_agrees
    ((differs_queueEvent _ who _).agrees .peripherals Aspect.noConfusion) other).trans
    (isSome_tellDetached (h.modify who _) name who other)

end

end

end Host

end ComputerHost

import ComputerHost.Proofs.Host.MirroredMoves

/-!
# Incidents

What happens on a host while two of its computers run: moves of their threads, errands to them, and the
passing of time with its timers. Computers that have no devices in common have nothing to do with each
other: what happens to one leaves the other alone.

Results:
1. `untouched_incident`, `Mirror.incident`: one incident, of another computer or of the computer itself.
2. `mirrors_run`: two runs that have the incidents of a computer in common.
3. `exists_alone`: a run with the incidents of one computer.
4. `exists_swapped`: incidents of two computers, in either order.
-/

namespace ComputerHost

/-- One thing that happens on a host. -/
inductive Incident where
  /-- A move of the thread of a computer. -/
  | move (who : Handle)
  /-- Something is asked of a computer from outside. -/
  | errand (who : Handle) (errand : Errand)
  /-- The owner of the first timer that was taken from the service, this computer, is looked for. -/
  | resolve (who : Handle)
  /-- The timer whose owner was found, this computer, fires. -/
  | fire (who : Handle)
  /-- The timers whose moment has come are taken from the service. -/
  | sweep
  | wait (ms : Nat)

namespace Incident

/-- The computer that something happens to, if it is one only. -/
def who? : Incident → Option Handle
  | move w | errand w _ | resolve w | fire w => some w
  | sweep | wait _ => none

/-- Does something happen to a computer? -/
def isFor (who : Handle) (x : Incident) : Bool := x.who?.all (· == who)

/-- Is it a part of the delivery of a timer? -/
def delivers : Incident → Bool
  | resolve _ | fire _ => true
  | _ => false

/-- A part of the delivery of a timer of another computer. -/
def IsAside (who : Handle) (x : Incident) : Prop := x.delivers = true ∧ x.isFor who = false

/-- The host afterwards, if it can happen. -/
def on? (h : Host) : Incident → Option Host
  | move w => h.move? w
  | errand w e => some (e.on w h)
  | resolve w => if h.due.head?.map (·.owner) = some w then h.resolveDue? else none
  | fire w => if h.firing.map (·.owner) = some w then h.fire? else none
  | sweep => some h.sweep
  | wait ms => some { h with clock := h.clock + ms }

/-- Timers are delivered to anyone, but else something happens to two computers only, and to their own
devices. -/
def Between (a b : Handle) (pool pool' : String → Prop) : Incident → Prop
  | move w => w = a ∨ w = b
  | errand w e => w = a ∧ e.Within pool ∨ w = b ∧ e.Within pool'
  | _ => True

end Incident

namespace Host

/-- The host after several incidents, if they can all happen. -/
def run? (h : Host) : List Incident → Option Host
  | [] => some h
  | x :: later => (x.on? h).bind fun h => h.run? later

/-- What holds of a host along a run: every timer is that of one computer, and both computers keep to their
own devices. -/
structure Sound (W W' : Ward) (h : Host) : Prop where
  apart : TimersApart h
  own : Mirrors W h h
  other : Mirrors W' h h

end Host

/-- Two wards that look at the same two computers, each at another one. -/
structure Ward.Opposite (W W' : Ward) : Prop where
  who : W'.who = W.other
  other : W'.other = W.who
  pools : ∀ name, W'.pool name → ¬W.pool name

theorem Ward.Opposite.symm {W W' : Ward} (hw : W.Opposite W') : W'.Opposite W :=
  ⟨hw.other.symm, hw.who.symm, fun name hn hn' => hw.pools name hn' hn⟩

namespace Host

section
variable {W W' : Ward} {ρ ρ' : Renaming} {h h' g g' h₁ h₁' h₂ h₂' : Host} {x : Incident}

/-! ## 1. One incident -/

theorem resolve_on? {w : Handle} : (Incident.resolve w).on? h = some h₁ ↔ ∃ entry due,
    h.firing = none ∧ h.due = entry :: due ∧ entry.owner = w ∧ h₁ = Change.resolve.on h := by
  unfold Incident.on?
  dsimp only
  constructor
  · intro hr
    split at hr
    · next hhead =>
      obtain ⟨entry, due, hfiring, hdue, -⟩ := of_resolveDue? hr
      rw [hdue] at hhead
      exact ⟨entry, due, hfiring, hdue, Option.some.inj hhead, (on_resolve hr).symm⟩
    · cases hr
  · rintro ⟨entry, due, hfiring, hdue, rfl, rfl⟩
    obtain ⟨h₁, hr⟩ : ∃ h₁, h.resolveDue? = some h₁ := by
      unfold resolveDue?
      rw [hfiring, hdue]
      exact ⟨_, rfl⟩
    rw [hdue, List.head?_cons, Option.map_some, if_pos rfl, hr, on_resolve hr]

theorem fire_on? {w : Handle} : (Incident.fire w).on? h = some h₁ ↔ ∃ entry,
    h.firing = some entry ∧ entry.owner = w ∧ h₁ = Change.fire.on h := by
  unfold Incident.on?
  dsimp only
  constructor
  · intro hf
    split at hf
    · next howner =>
      obtain ⟨entry, hfiring, rfl⟩ := Option.map_eq_some_iff.mp howner
      exact ⟨entry, hfiring, rfl, (on_fire hf).symm⟩
    · cases hf
  · rintro ⟨entry, hfiring, rfl, rfl⟩
    rw [hfiring, Option.map_some, if_pos rfl, fire_of_some hfiring]
    unfold fire?
    rw [hfiring]
    rfl

/-- An incident is made of changes. -/
theorem comes_incident (hx : x.on? h = some h₁) : ∃ xs, Comes h xs h₁ := by
  cases x with
  | move w =>
    obtain ⟨xs, -, -, -, -, hc, -⟩ := makes_of_step (.moves hx)
    exact ⟨xs, hc⟩
  | errand w e =>
    cases hx
    cases e with
    | request r => exact ⟨_, comes_serve h w r⟩
    | cancelTimer place =>
      unfold Errand.on
      dsimp only
      split
      · next id _ => exact ⟨_, comes_on (.cancelTimer w id) h⟩
      · exact ⟨_, Differs.comes (.refl _ h)⟩
    | debounce ms e => exact ⟨_, comes_on (.debounce w ms e) h⟩
    | attach side name => exact ⟨_, comes_on (.attach w side name) h⟩
    | detach side => exact ⟨_, comes_on (.detach w side) h⟩
    | connect name => exact ⟨_, comes_on (.connect w name) h⟩
    | disconnect id => exact ⟨_, comes_on (.disconnect w id) h⟩
    | disconnectAll => exact ⟨_, comes_on (.disconnectAll w) h⟩
    | addFinalizer name => exact ⟨_, comes_on (.addFinalizer w name) h⟩
    | permit device =>
      refine ⟨_, Differs.comes ?_⟩
      unfold Errand.on givePermit
      dsimp only
      split
      · next hp => exact quiet_setDevice hp _
      · exact .refl _ h
  | resolve w =>
    obtain ⟨-, -, -, -, -, rfl⟩ := resolve_on?.mp hx
    exact ⟨_, comes_on .resolve h⟩
  | fire w =>
    obtain ⟨-, -, -, rfl⟩ := fire_on?.mp hx
    exact ⟨_, comes_on .fire h⟩
  | sweep =>
    cases hx
    exact ⟨_, comes_on .sweep h⟩
  | wait ms =>
    cases hx
    exact ⟨_, Differs.comes (quiet_clock h (Nat.le_add_right ..))⟩

theorem timersApart_incident (ha : TimersApart h) (hx : x.on? h = some h₁) : TimersApart h₁ := by
  obtain ⟨xs, trace, he, -⟩ := comes_incident hx
  exact timersApart_of_evolves he ha

theorem Mirror.held_pool (hm : Mirror W ρ h h') {session : Session} {program : Script.Program}
    {request : Script.Request} {device : String} {warned : Bool}
    (hs : h.stage? W.who = some (.held session program request device warned)) : W.pool device := by
  have hstage := hm.stage
  rw [hs] at hstage
  generalize h'.stage? W.who = found' at hstage
  cases hstage with
  | some hs =>
    cases hs with
    | held _ _ _ _ hn => exact hn

theorem others_timers (hw : W.Opposite W') (ha : TimersApart h) {id : TimerId}
    (hid : h.HasTimer W'.who id) : (W.others h).timers id := fun hown =>
  Ward.other_ne W (hw.who ▸ ha.one _ _ _ hid hown)

theorem fits_others (hw : W.Opposite W') (hs : Sound W W' h) : Fits (W.others h) W'.who h := by
  obtain ⟨ha, ⟨ρ, hm⟩, ⟨ρ', hm'⟩⟩ := hs
  refine ⟨fun p hp => ?_, .inr fun p hp => ?_, hm.links, fun id hid => ?_, fun id hid => ?_, fun hs => ?_⟩
  · exact hw.pools p.2 (hm'.sides_pool p hp)
  · exact hm'.unlinked p.2 (hm'.sides_pool p hp)
  · exact others_timers hw ha (.inl (.inl (.inr hid)))
  · exact others_timers hw ha (.inl (.inr hid))
  · exact hw.pools _ (hm'.held_pool hs)

theorem covers_others (hw : W.Opposite W') (h : Host) : (W.others h).Covers W'.who :=
  ⟨congrArg some hw.who.symm, hw.who ▸ Ward.other_ne W⟩

theorem works_errand {s : Scope} {who : Handle} (hc : s.Covers who) (hf : Fits s who h)
    (htimers : ∀ id ∈ h.timersOf who, s.timers id) {e : Errand} (he : e.Within s.names) :
    Works s h (e.on who h) := by
  have hr := hc.reaches
  cases e with
  | request r => exact works_serve hr hf.sides hf.direct r
  | cancelTimer place =>
    unfold Errand.on
    dsimp only
    split
    · next id hid => exact works_cancelTimer hr (htimers id (List.mem_of_getElem? hid)) h
    · exact .refl
  | debounce ms e => exact works_debounce hr hf.debounce ms e
  | attach side name => exact works_attach hr he h side
  | detach side => exact works_detach hr fun name hl => hf.sides (side, name) (mem_of_lookup hl)
  | connect name => exact works_update hr (fun _ => by exact ⟨rfl, rfl⟩) h 0
  | disconnect id => exact works_closeConnection hr h id
  | disconnectAll => exact works_closeConnections hr h
  | addFinalizer name => exact works_modify hr (fun _ => by exact ⟨rfl, rfl⟩) h
  | permit device =>
    unfold Errand.on givePermit
    dsimp only
    split
    · exact works_setPeripheral he h _
    · exact .refl

theorem isFor_iff {who : Handle} : x.isFor who = true ↔ ∀ w, x.who? = some w → w = who := by
  unfold Incident.isFor
  cases x.who? with
  | none => simp
  | some v => simp

theorem between_symm {a b : Handle} {pool pool' : String → Prop} (hb : x.Between a b pool pool') :
    x.Between b a pool' pool := by
  cases x with
  | move | errand => exact Or.symm hb
  | resolve | fire | sweep | wait => trivial

/-- But for timers, what happens to the other computer stays in its scope. -/
theorem works_incident (hw : W.Opposite W') (hs : Sound W W' h)
    (hb : x.Between W.who W'.who W.pool W'.pool) (hwho : x.who? = some W'.who)
    (hd : x.delivers = false) (hx : x.on? h = some h₁) : Works (W.others h) h h₁ := by
  have hother : W'.who ≠ W.who := hw.who ▸ Ward.other_ne W
  have hc := covers_others hw h
  have hfits := fits_others hw hs
  cases x with
  | move w =>
    cases hwho
    obtain ⟨stage, hstage, hmoves⟩ := exists_moves_of_move? hx
    exact works_of_moves hc trivial hfits (.inl trivial) hstage hmoves
  | errand w e =>
    cases hwho
    obtain ⟨-, he⟩ := hb.resolve_left fun h => hother h.1
    cases hx
    refine works_errand hc hfits (fun id hid => others_timers hw hs.apart (.inl (.inl (.inl hid)))) ?_
    cases e with
    | attach | permit => exact hw.pools _ he
    | _ => trivial
  | resolve | fire => cases hd
  | sweep | wait => cases hwho

/-- Something happens to everyone, to the computer, to the other one, or to a timer of anyone. -/
theorem who?_cases {a b : Handle} {pool pool' : String → Prop} (hb : x.Between a b pool pool') :
    x.isFor a = true ∨ x.who? = some b ∨ x.delivers = true := by
  have hself {w : Handle} (hwho : x.who? = some w) (heq : w = a) : x.isFor a = true :=
    isFor_iff.mpr fun v hv => (Option.some.inj (hv.symm.trans hwho)).trans heq
  cases x with
  | move w =>
    rcases hb with hw | rfl
    · exact .inl (hself rfl hw)
    · exact .inr (.inl rfl)
  | errand w e =>
    rcases hb with ⟨hw, -⟩ | ⟨rfl, -⟩
    · exact .inl (hself rfl hw)
    · exact .inr (.inl rfl)
  | resolve | fire => exact .inr (.inr rfl)
  | sweep | wait => exact .inl rfl

/-- The delivery of timers of others leaves the computer alone. -/
theorem untouched_aside (ha : TimersApart h) (hside : x.IsAside W.who) (hx : x.on? h = some h₁) :
    Untouched W h h₁ := by
  obtain ⟨hd, hfor⟩ := hside
  have hne {w : Handle} (hwho : x.who? = some w) : w ≠ W.who := by
    rintro rfl
    rw [isFor_iff.mpr fun v hv => Option.some.inj (hv.symm.trans hwho)] at hfor
    cases hfor
  cases x with
  | resolve w =>
    obtain ⟨entry, due, hfiring, hdue, rfl, rfl⟩ := resolve_on?.mp hx
    exact untouched_resolve ha hfiring hdue (hne rfl)
  | fire w =>
    obtain ⟨entry, hfiring, rfl, rfl⟩ := fire_on?.mp hx
    exact untouched_fire hfiring (hne rfl)
  | _ => cases hd

/-- What happens to others leaves the computer alone. -/
theorem untouched_incident (hw : W.Opposite W') (hs : Sound W W' h)
    (hb : x.Between W.who W'.who W.pool W'.pool) (hfor : x.isFor W.who = false)
    (hx : x.on? h = some h₁) : Untouched W h h₁ := by
  cases hd : x.delivers with
  | true => exact untouched_aside hs.apart ⟨hd, hfor⟩ hx
  | false =>
    rcases who?_cases hb with hown | hother | hdelivers
    · exact absurd (hown.symm.trans hfor) nofun
    · exact untouched_of_works (works_incident hw hs hb hother hd hx)
    · exact absurd (hdelivers.symm.trans hd) nofun

theorem Mirror.wait (hm : Mirror W ρ h h') (ms : Nat) :
    Mirror W ρ { h with clock := h.clock + ms } { h' with clock := h'.clock + ms } :=
  { hm with clock := congrArg (· + ms) hm.clock }

theorem within_of_between {e : Errand} (hw : W.Opposite W')
    (hb : (Incident.errand W.who e).Between W.who W'.who W.pool W'.pool) : e.Within W.pool :=
  hb.elim And.right fun h => absurd (hw.who.symm.trans h.1.symm) (Ward.other_ne W)

/-- What happens to the computer itself, or to all, on hosts that mirror each other. -/
theorem Mirror.incident (hw : W.Opposite W') (hm : Mirror W ρ h h') (ha : TimersApart h)
    (ha' : TimersApart h') (hb : x.Between W.who W'.who W.pool W'.pool) (hfor : x.isFor W.who = true)
    (hx : x.on? h = some h₁) (hx' : x.on? h' = some h₁') : Mirrors W h₁ h₁' := by
  have hwho {w : Handle} := isFor_iff.mp hfor w
  cases x with
  | move w =>
    obtain rfl := hwho rfl
    have hmove := hm.move? ha ha'
    rw [show h.move? W.who = some h₁ from hx, show h'.move? W.who = some h₁' from hx'] at hmove
    cases hmove with
    | some hm₁ => exact hm₁
  | errand w e =>
    obtain rfl := hwho rfl
    cases hx
    cases hx'
    exact hm.errand ha ha' (within_of_between hw hb)
  | resolve w =>
    obtain rfl := hwho rfl
    obtain ⟨entry, due, hfiring, hdue, ho, rfl⟩ := resolve_on?.mp hx
    obtain ⟨entry', due', hfiring', hdue', ho', rfl⟩ := resolve_on?.mp hx'
    exact ⟨ρ, hm.resolve hfiring hfiring' hdue hdue' ho ho'⟩
  | fire w =>
    obtain rfl := hwho rfl
    obtain ⟨entry, hfiring, ho, rfl⟩ := fire_on?.mp hx
    obtain ⟨entry', hfiring', ho', rfl⟩ := fire_on?.mp hx'
    exact ⟨ρ, hm.fire hfiring hfiring' ho ho'⟩
  | sweep =>
    cases hx
    cases hx'
    exact ⟨ρ, hm.sweep ha ha'⟩
  | wait ms =>
    cases hx
    cases hx'
    exact ⟨ρ, hm.wait ms⟩

/-- What can happen to the computer on one of two hosts that mirror each other can happen on the other, but
for timers of others that are to be delivered first. -/
theorem Mirror.happens (hm : Mirror W ρ h h') (ha : TimersApart h) (ha' : TimersApart h')
    (hfor : x.isFor W.who = true) (hx : x.on? h = some h₁) :
    x = .resolve W.who ∨ ∃ h₁', x.on? h' = some h₁' := by
  have hwho {w : Handle} := isFor_iff.mp hfor w
  cases x with
  | move w =>
    obtain rfl := hwho rfl
    have hmove := hm.move? ha ha'
    rw [show h.move? W.who = some h₁ from hx] at hmove
    cases hmoved : h'.move? W.who with
    | none =>
      rw [hmoved] at hmove
      cases hmove
    | some h₁' => exact .inr ⟨h₁', hmoved⟩
  | resolve w => exact .inl (congrArg _ (hwho rfl))
  | fire w =>
    obtain ⟨entry, hfiring, ho, -⟩ := fire_on?.mp hx
    have halike := hm.firing
    rw [hfiring, Option.toList_some, own_cons_of_eq (ho.trans (hwho rfl))] at halike
    obtain ⟨entry', later, -, -, hown⟩ := List.forall₂_cons_left_iff.mp halike
    obtain ⟨hmem, howner⟩ := mem_own.mp (hown ▸ List.mem_cons_self : entry' ∈ W.own h'.firing.toList)
    exact .inr ⟨_, fire_on?.mpr ⟨entry', Option.mem_toList.mp hmem, howner.trans (hwho rfl).symm, rfl⟩⟩
  | errand | sweep | wait => exact .inr ⟨_, rfl⟩

/-! ## 2. Two runs -/

/-- Every incident keeps a host sound. -/
theorem sound_incident (hw : W.Opposite W') (hs : Sound W W' h)
    (hb : x.Between W.who W'.who W.pool W'.pool) (hx : x.on? h = some h₁) : Sound W W' h₁ := by
  have hside {W W' : Ward} (hw : W.Opposite W') (hs : Sound W W' h)
      (hb : x.Between W.who W'.who W.pool W'.pool) : Mirrors W h₁ h₁ := by
    obtain ⟨ρ, hm⟩ := hs.own
    cases hfor : x.isFor W.who with
    | true => exact hm.incident hw hs.apart hs.apart hb hfor hx hx
    | false =>
      have hu := untouched_incident hw hs hb hfor hx
      exact ⟨ρ, hm.untouched hu hu⟩
  exact ⟨timersApart_incident hs.apart hx, hside hw hs hb,
    hside hw.symm ⟨hs.apart, hs.other, hs.own⟩ (between_symm hb)⟩

theorem run?_cons {later : List Incident} : h.run? (x :: later) = some g ↔
    ∃ h₁, x.on? h = some h₁ ∧ h₁.run? later = some g :=
  Option.bind_eq_some_iff

theorem run?_append {xs ys : List Incident} : h.run? (xs ++ ys) = some g ↔
    ∃ h₁, h.run? xs = some h₁ ∧ h₁.run? ys = some g := by
  induction xs generalizing h with
  | nil => simp [run?]
  | cons x later ih =>
    rw [List.cons_append, run?_cons]
    simp only [run?_cons, ih]
    grind

theorem sound_run {xs : List Incident} (hw : W.Opposite W') (hs : Sound W W' h)
    (hb : ∀ x ∈ xs, x.Between W.who W'.who W.pool W'.pool) (hr : h.run? xs = some g) :
    Sound W W' g := by
  induction xs generalizing h with
  | nil => exact Option.some.inj hr ▸ hs
  | cons x later ih =>
    obtain ⟨h₁, hx, hlater⟩ := run?_cons.mp hr
    rw [List.forall_mem_cons] at hb
    exact ih (sound_incident hw hs hb.1 hx) hb.2 hlater

theorem untouched_run {xs : List Incident} (hw : W.Opposite W') (hs : Sound W W' h)
    (hb : ∀ x ∈ xs, x.Between W.who W'.who W.pool W'.pool) (hfor : ∀ x ∈ xs, x.isFor W.who = false)
    (hr : h.run? xs = some g) : Untouched W h g := by
  induction xs generalizing h with
  | nil => exact Option.some.inj hr ▸ .refl W h
  | cons x later ih =>
    obtain ⟨h₁, hx, hlater⟩ := run?_cons.mp hr
    rw [List.forall_mem_cons] at hb hfor
    exact (untouched_incident hw hs hb.1 hfor.1 hx).trans
      (ih (sound_incident hw hs hb.1 hx) hb.2 hfor.2 hlater)

/-- Two runs with the same incidents of the computer lead from hosts that mirror each other to such
hosts. -/
theorem mirrors_run {xs xs' : List Incident} (hw : W.Opposite W') (hs : Sound W W' h)
    (hs' : Sound W W' h') (hm : Mirrors W h h')
    (hb : ∀ x ∈ xs, x.Between W.who W'.who W.pool W'.pool)
    (hb' : ∀ x ∈ xs', x.Between W.who W'.who W.pool W'.pool)
    (hshare : xs'.filter (·.isFor W.who) = xs.filter (·.isFor W.who)) (hr : h.run? xs = some g)
    (hr' : h'.run? xs' = some g') : Mirrors W g g' := by
  induction xs generalizing h h' xs' with
  | nil =>
    obtain ⟨ρ, hm⟩ := hm
    have hnone (x : Incident) (hx : x ∈ xs') : x.isFor W.who = false := by
      simpa using List.filter_eq_nil_iff.mp hshare x hx
    have hu' := untouched_run hw hs' hb' hnone hr'
    exact ⟨ρ, Option.some.inj hr ▸ hm.untouched (.refl W h) hu'⟩
  | cons x later ih =>
    obtain ⟨h₁, hx, hlater⟩ := run?_cons.mp hr
    rw [List.forall_mem_cons] at hb
    have hs₁ := sound_incident hw hs hb.1 hx
    cases hfor : x.isFor W.who with
    | false =>
      obtain ⟨ρ, hm⟩ := hm
      rw [List.filter_cons_of_neg (by simp [hfor])] at hshare
      exact ih hs₁ hs' ⟨ρ, hm.untouched (untouched_incident hw hs hb.1 hfor hx) (.refl W h')⟩ hb.2 hb'
        hshare hlater hr'
    | true =>
      -- The other run comes to the same incident after some of others.
      rw [List.filter_cons_of_pos hfor] at hshare
      obtain ⟨before, after, rfl, hbefore, -, hafter⟩ := List.filter_eq_cons_iff.mp hshare
      obtain ⟨g₁, hr₁, hrest⟩ := run?_append.mp hr'
      obtain ⟨h₁', hx', hlater'⟩ := run?_cons.mp hrest
      obtain ⟨hbBefore, hbRest⟩ := List.forall_mem_append.mp hb'
      rw [List.forall_mem_cons] at hbRest
      have hsg := sound_run hw hs' hbBefore hr₁
      have hu' := untouched_run hw hs' hbBefore (fun x hx => by simpa using hbefore x hx) hr₁
      obtain ⟨ρ, hm⟩ := hm
      have hm₁ := (hm.untouched (.refl W h) hu').incident hw hs.apart hsg.apart hb.1 hfor hx hx'
      exact ih hs₁ (sound_incident hw hsg hb.1 hx') hm₁ hb.2 hbRest.2 hafter hlater hlater'

/-! ## 3. A computer alone -/

/-- A timer that is on its way to another computer fires. -/
theorem run?_fire {who : Handle} (hothers : ∀ e ∈ h.firing, e.owner ≠ who) :
    ∃ xs g, (∀ y ∈ xs, y.IsAside who) ∧ h.run? xs = some g ∧ g.firing = none ∧ g.due = h.due := by
  cases hfiring : h.firing with
  | none => exact ⟨[], h, nofun, rfl, hfiring, rfl⟩
  | some entry =>
    have hover : (Change.fire.on h).firing = none := by
      rw [fire_of_some hfiring]
      rfl
    refine ⟨[.fire entry.owner], _, fun y hy => ?_,
      run?_cons.mpr ⟨_, fire_on?.mpr ⟨entry, hfiring, rfl, rfl⟩, rfl⟩, hover, due_fire h⟩
    rw [List.mem_singleton.mp hy]
    exact ⟨rfl, by simpa [Incident.isFor, Incident.who?] using hothers entry hfiring⟩

/-- The timers of others are delivered one after the other. -/
theorem run?_deliveries {who : Handle} {before rest : List TimerEntry} (hdue : h.due = before ++ rest)
    (hbefore : ∀ e ∈ before, e.owner ≠ who) (hothers : ∀ e ∈ h.firing, e.owner ≠ who) :
    ∃ xs g, (∀ y ∈ xs, y.IsAside who) ∧ h.run? xs = some g ∧ g.firing = none ∧ g.due = rest := by
  induction before generalizing h with
  | nil =>
    obtain rfl : h.due = rest := hdue
    exact run?_fire hothers
  | cons e before ih =>
    rw [List.forall_mem_cons] at hbefore
    obtain ⟨xs, g, hxs, hr, hfiring, hdue'⟩ := run?_fire hothers
    rw [hdue] at hdue'
    have hothers' : ∀ e' ∈ (Change.resolve.on g).firing, e'.owner ≠ who := by
      rw [firing_resolve hfiring hdue']
      split
      · rintro _ ⟨rfl⟩
        exact hbefore.1
      · exact nofun
    obtain ⟨ys, g', hys, hr', hover⟩ := ih (due_resolve hfiring hdue') hbefore.2 hothers'
    refine ⟨xs ++ .resolve e.owner :: ys, g', ?_, run?_append.mpr ⟨g, hr, run?_cons.mpr
      ⟨_, resolve_on?.mpr ⟨e, _, hfiring, hdue', rfl, rfl⟩, hr'⟩⟩, hover⟩
    rw [List.forall_mem_append, List.forall_mem_cons]
    exact ⟨hxs, ⟨rfl, by simpa [Incident.isFor, Incident.who?] using hbefore.1⟩, hys⟩

/-- What happens to the computer on one of two hosts that mirror each other can happen on the other when
enough timers of others have been delivered there. -/
theorem Mirror.catchesUp (hm : Mirror W ρ h h') (ha : TimersApart h) (ha' : TimersApart h')
    (hfor : x.isFor W.who = true) (hx : x.on? h = some h₁) :
    ∃ before g' h₁', (∀ y ∈ before, y.IsAside W.who) ∧ h'.run? before = some g' ∧
      x.on? g' = some h₁' := by
  rcases hm.happens ha ha' hfor hx with rfl | ⟨h₁', hx'⟩
  · obtain ⟨entry, due, hfiring, hdue, ho, -⟩ := resolve_on?.mp hx
    have halike := hm.due
    have hfirings := hm.firing
    rw [hdue, own_cons_of_eq ho] at halike
    rw [hfiring] at hfirings
    obtain ⟨entry', later, -, -, hown⟩ := List.forall₂_cons_left_iff.mp halike
    obtain ⟨before, after, hdue', hbefore, hentry, -⟩ := List.filter_eq_cons_iff.mp hown
    have hothers : ∀ e ∈ h'.firing, e.owner ≠ W.who := fun e he howner => by
      have hmem := mem_own.mpr ⟨Option.mem_toList.mpr he, howner⟩
      rw [List.forall₂_nil_left_iff.mp hfirings] at hmem
      cases hmem
    obtain ⟨xs, g', hxs, hr, hfiring', hg'⟩ := run?_deliveries hdue'
      (fun e he howner => hbefore e he (beq_iff_eq.mpr howner)) hothers
    exact ⟨xs, g', _, hxs, hr, resolve_on?.mpr ⟨entry', after, hfiring', hg', eq_of_beq hentry, rfl⟩⟩
  · exact ⟨[], h', h₁', nofun, rfl, hx'⟩

theorem between_of_delivers {a b : Handle} {pool pool' : String → Prop} (hd : x.delivers = true) :
    x.Between a b pool pool' := by
  cases x with
  | resolve | fire => trivial
  | _ => cases hd

/-- For every run there is one in which nothing happens to others, but that timers of theirs are
delivered. -/
theorem exists_alone {xs : List Incident} (hw : W.Opposite W') (hs : Sound W W' h)
    (hs' : Sound W W' h') (hm : Mirrors W h h')
    (hb : ∀ x ∈ xs, x.Between W.who W'.who W.pool W'.pool) (hr : h.run? xs = some g) :
    ∃ alone g', (∀ x ∈ alone, x.isFor W.who = true ∨ x.delivers = true) ∧
      alone.filter (·.isFor W.who) = xs.filter (·.isFor W.who) ∧ h'.run? alone = some g' := by
  induction xs generalizing h h' with
  | nil => exact ⟨[], h', nofun, rfl, rfl⟩
  | cons x later ih =>
    obtain ⟨h₁, hx, hlater⟩ := run?_cons.mp hr
    rw [List.forall_mem_cons] at hb
    have hs₁ := sound_incident hw hs hb.1 hx
    obtain ⟨ρ, hm⟩ := hm
    cases hfor : x.isFor W.who with
    | false =>
      rw [List.filter_cons_of_neg (by simp [hfor])]
      exact ih hs₁ hs' ⟨ρ, hm.untouched (untouched_incident hw hs hb.1 hfor hx) (.refl W h')⟩ hb.2 hlater
    | true =>
      obtain ⟨before, g₁, h₁', hbefore, hr₁, hx'⟩ := hm.catchesUp hs.apart hs'.apart hfor hx
      have hothers (y : Incident) (hy : y ∈ before) : y.isFor W.who = false := (hbefore y hy).2
      have hbBefore (y : Incident) (hy : y ∈ before) : y.Between W.who W'.who W.pool W'.pool :=
        between_of_delivers (hbefore y hy).1
      have hsg := sound_run hw hs' hbBefore hr₁
      have hu' := untouched_run hw hs' hbBefore hothers hr₁
      have hm₁ := (hm.untouched (.refl W h) hu').incident hw hs.apart hsg.apart hb.1 hfor hx hx'
      obtain ⟨alone, g', halone, hshare, hr'⟩ := ih hs₁ (sound_incident hw hsg hb.1 hx') hm₁ hb.2 hlater
      refine ⟨before ++ x :: alone, g', fun y hy => ?_, ?_, run?_append.mpr ⟨g₁, hr₁, run?_cons.mpr
        ⟨h₁', hx', hr'⟩⟩⟩
      · rcases List.mem_append.mp hy with hy | hy
        · exact .inr (hbefore y hy).1
        · rcases List.mem_cons.mp hy with rfl | hy
          · exact .inl hfor
          · exact halone y hy
      · have hnone : before.filter (·.isFor W.who) = [] :=
          List.filter_eq_nil_iff.mpr fun y hy => by simp [hothers y hy]
        rw [List.filter_append, hnone, List.nil_append, List.filter_cons_of_pos hfor,
          List.filter_cons_of_pos hfor, hshare]

/-! ## 4. Either order -/

/-- Whatever is done for a computer is no part of a delivery. -/
theorem delivery_of_works {s : Scope} (hs : ¬s.isOpen) (hw : Works s h h') :
    h'.firing = h.firing ∧ h'.due = h.due := by
  induction hw with
  | refl => exact ⟨rfl, rfl⟩
  | tail _ ht ih =>
    obtain ⟨hfiring, hdue⟩ := ih
    rw [← hfiring, ← hdue]
    cases ht with
    | transcript =>
      rw [log_frame]
      exact ⟨rfl, rfl⟩
    | message ho => exact absurd ho hs
    | spawns ho => exact absurd ho hs
    | other ho => exact absurd ho hs
    | _ => exact ⟨rfl, rfl⟩

/-- What happens to the computer and then to the other one can happen in the other order, but for
parts of two deliveries. -/
theorem exists_swapped {y : Incident} (hw : W.Opposite W') (hs : Sound W W' g)
    (hbx : x.Between W.who W'.who W.pool W'.pool) (hby : y.Between W.who W'.who W.pool W'.pool)
    (hx : x.who? = some W.who) (hy : y.who? = some W'.who)
    (hd : x.delivers = false ∨ y.delivers = false) (hgx : x.on? g = some g') (hgy : y.on? g' = some h) :
    ∃ h₁ h₂, y.on? g = some h₁ ∧ x.on? h₁ = some h₂ := by
  have hfor {who : Handle} {z : Incident} (hz : z.who? = some who) : z.isFor who = true :=
    isFor_iff.mpr fun v hv => Option.some.inj (hv.symm.trans hz)
  have hnotFor {who v : Handle} {z : Incident} (hz : z.who? = some v) (hne : v ≠ who) :
      z.isFor who = false := by
    unfold Incident.isFor
    rw [hz]
    simpa using hne
  have hother : W'.who ≠ W.who := hw.who ▸ Ward.other_ne W
  have hs' : Sound W' W g := ⟨hs.apart, hs.other, hs.own⟩
  have hfirst : ∃ h₁, y.on? g = some h₁ := by
    obtain ⟨ρ, hm⟩ := hs.other
    have hu := untouched_incident hw.symm hs' (between_symm hbx) (hnotFor hx hother.symm) hgx
    rcases (hm.untouched hu (.refl W' g)).happens (timersApart_incident hs.apart hgx) hs.apart
      (hfor hy) hgy with rfl | hk
    · -- The timer was to be delivered before.
      obtain ⟨entry, due, hfiring, hdue, ho, -⟩ := resolve_on?.mp hgy
      have hworks := works_incident hw.symm hs' (between_symm hbx) hx (hd.resolve_right nofun) hgx
      obtain ⟨hfiring', hdue'⟩ := delivery_of_works id hworks
      exact ⟨_, resolve_on?.mpr ⟨entry, due, hfiring'.symm.trans hfiring, hdue'.symm.trans hdue, ho, rfl⟩⟩
    · exact hk
  obtain ⟨h₁, hh₁⟩ := hfirst
  refine ⟨h₁, ?_⟩
  obtain ⟨ρ, hm⟩ := hs.own
  have hu := untouched_incident hw hs hby (hnotFor hy hother) hh₁
  rcases (hm.untouched (.refl W g) hu).happens hs.apart (timersApart_incident hs.apart hh₁) (hfor hx)
    hgx with rfl | ⟨h₂, hh₂⟩
  · obtain ⟨entry, due, hfiring, hdue, ho, -⟩ := resolve_on?.mp hgx
    have hworks := works_incident hw hs hby hy (hd.resolve_left nofun) hh₁
    obtain ⟨hfiring', hdue'⟩ := delivery_of_works id hworks
    exact ⟨_, hh₁, resolve_on?.mpr ⟨entry, due, hfiring'.trans hfiring, hdue'.trans hdue, ho, rfl⟩⟩
  · exact ⟨h₂, hh₁, hh₂⟩

end

end Host

end ComputerHost

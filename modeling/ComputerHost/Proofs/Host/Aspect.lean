import ComputerHost.Proofs.Host.History

/-!
# Aspects of a host

A host is changed by many functions, and each of them leaves most of it alone. `Aspect` names what can
be read off a host, apart from what only threads and people look at: stages, phases, terminals, what has
been logged. `Differs` says that two hosts agree in all but the given aspects, and `Quiet` that they agree
in all of them.

Results:
1. `Differs.trans`, `differs_modify`, `differs_foldl`: how footprints are put together.
2. `differs_journal`, `differs_registry`, …: the footprints of a change of one field.
-/

namespace ComputerHost

/-- What is noted about things that are held and let go of. -/
def Deed.isCustody : Deed → Bool
  | .attached _ | .detached _ | .linked _ | .unlinked _ | .closed _ | .finalized _ | .saved => true
  | _ => false

/-- The link that a peripheral is, if it is one. -/
def Peripheral.link? : Peripheral → Option Link
  | .device _ => none
  | .link l => some l

namespace Host

/-! ## Readings -/

def timersOf (h : Host) (who : Handle) : List TimerId :=
  ((h.computer? who).map (·.timers)).getD []

/-- The timers that the teardown of a computer has taken and not marked yet. -/
def takenTimersOf (h : Host) (who : Handle) : List TimerId :=
  ((h.computer? who).map (·.takenTimers)).getD []

def debounceOf? (h : Host) (who : Handle) : Option TimerId :=
  ((h.computer? who).map (·.debounce)).getD none

/-- What is attached to a computer, by side. -/
def sidesOf (h : Host) (who : Handle) : List (String × String) :=
  ((h.computer? who).map (·.peripherals)).getD []

/-- The open connections of a computer, and the number of the next one. -/
def connectionTable (h : Host) (who : Handle) : List Connection × Nat :=
  ((h.computer? who).map fun c => (c.connections, c.nextConnection)).getD ([], 1)

def connectionsOf (h : Host) (who : Handle) : List Connection := (h.connectionTable who).1

def finalizersOf (h : Host) (who : Handle) : List String :=
  ((h.computer? who).map (·.finalizers)).getD []

def config? (h : Host) (who : Handle) : Option ComputerConfig := (h.computer? who).map (·.config)

/-- What the journal says about the things that an instance holds. -/
def custodyOf (h : Host) (who : Handle) : List Deed :=
  (h.journal.filter fun e => e.owner == some who && e.deed.isCustody).map (·.deed)

end Host

/-- Something that can be read off a host. -/
inductive Aspect where
  /-- Which computers there are, and the number of the next one. -/
  | roster
  | events (who : Handle)
  | runState (who : Handle)
  | config (who : Handle)
  | timers (who : Handle)
  | taken (who : Handle)
  | debounce (who : Handle)
  | sides (who : Handle)
  | connections (who : Handle)
  | finalizers (who : Handle)
  | custody (who : Handle)
  /-- The timer service, and what it has handed over. -/
  | service
  /-- The number of the next timer. -/
  | numbering
  /-- Who is registered, and who is being torn down. -/
  | registered
  | freedTimers
  | references
  | peripherals
  | tree
  | store

/-- Do two hosts agree in an aspect? The second one may have more computers. -/
def Aspect.Agrees (h h' : Host) : Aspect → Prop
  | roster => h'.counters.generation = h.counters.generation ∧
      ∀ who, (h'.computer? who).isSome = (h.computer? who).isSome
  | events who => h'.queue who = h.queue who
  | runState who => (h.computer? who).isSome = true → h'.runState? who = h.runState? who
  | config who => (h.computer? who).isSome = true → h'.config? who = h.config? who
  | timers who => h'.timersOf who = h.timersOf who
  | taken who => h'.takenTimersOf who = h.takenTimersOf who
  | debounce who => h'.debounceOf? who = h.debounceOf? who
  | sides who => h'.sidesOf who = h.sidesOf who
  | connections who => h'.connectionTable who = h.connectionTable who
  | finalizers who => h'.finalizersOf who = h.finalizersOf who
  | custody who => h'.custodyOf who = h.custodyOf who
  | service => h'.timers = h.timers ∧ h'.due = h.due ∧ h'.firing = h.firing
  | numbering => h'.counters.timer = h.counters.timer
  | registered => h'.registry.registered = h.registry.registered ∧
      h'.registry.freed = h.registry.freed
  | freedTimers => h'.registry.freedTimers = h.registry.freedTimers
  | references => h'.registry.references = h.registry.references
  | peripherals => ∀ name,
      (h'.peripheral? name).map Peripheral.link? = (h.peripheral? name).map Peripheral.link?
  | tree => h'.tree = h.tree
  | store => h'.store = h.store

/-- Is an aspect of one computer the same before and after something was done to it? -/
def Aspect.Same (c c' : Computer) : Aspect → Prop
  | events _ => c'.events = c.events
  | runState _ => c'.runState = c.runState
  | config _ => c'.config = c.config
  | timers _ => c'.timers = c.timers
  | taken _ => c'.takenTimers = c.takenTimers
  | debounce _ => c'.debounce = c.debounce
  | sides _ => c'.peripherals = c.peripherals
  | connections _ => (c'.connections, c'.nextConnection) = (c.connections, c.nextConnection)
  | finalizers _ => c'.finalizers = c.finalizers
  | _ => True

/-- What is touched when the owner of a timer is looked for. -/
def Aspect.OfResolution : Aspect → Prop
  | service | freedTimers => True
  | _ => False

/-- What a timer that fires may touch: it may be anybody's. -/
def Aspect.OfFiring : Aspect → Prop
  | service | timers _ | debounce _ | events _ => True
  | _ => False

/-- What is touched when a peripheral is told that it is attached to a computer or let go. -/
def Aspect.OfTelling (who : Handle) : Aspect → Prop
  | custody w => w = who
  | peripherals | references => True
  | _ => False

/-- What attaching a peripheral to a computer and letting go of it touch. -/
def Aspect.OfWiring (who : Handle) : Aspect → Prop
  | sides w | events w | custody w => w = who
  | peripherals | references => True
  | _ => False

/-- What is touched when peripherals of any computer are let go. -/
def Aspect.OfAnyWiring : Aspect → Prop
  | sides _ | events _ | custody _ | peripherals | references => True
  | _ => False

/-- What is touched when a computer is constructed and started. -/
def Aspect.OfSpawn : Aspect → Prop
  | roster | tree | registered => True
  | _ => False

/-- What a move of the teardown of a computer may touch. -/
def TeardownStep.Touches (who : Handle) : TeardownStep → Aspect → Prop
  | .retire, .registered | .release, .registered => True
  | .runFinalizers, .finalizers w | .runFinalizers, .config w | .runFinalizers, .custody w => w = who
  | .saveConfig, .tree | .saveConfig, .store => True
  | .saveConfig, .custody w => w = who
  | .releasePeripherals, x => x.OfWiring who
  | .detachReferences, x => x.OfAnyWiring
  | .takeTimers, .timers w | .takeTimers, .taken w | .invalidateTimers, .taken w => w = who
  | .invalidateTimers, .freedTimers => True
  | .cancelDebounce, .debounce w => w = who
  | .cancelDebounce, .service => True
  | .closeConnections, .connections w | .closeConnections, .custody w => w = who
  | _, _ => False

/-- The instance that an aspect is about, if it is about one. -/
def Aspect.who? : Aspect → Option Handle
  | events who | runState who | config who | timers who | taken who | debounce who | sides who
  | connections who | finalizers who | custody who => some who
  | _ => none

namespace Host

/-- The second host is a later state of the first one that differs from it in the given aspects at
most. -/
structure Differs (at₁ : Aspect → Prop) (h h' : Host) : Prop where
  setup : h'.setup = h.setup
  clock : h.clock ≤ h'.clock
  known : ∀ who, (h.computer? who).isSome = true → (h'.computer? who).isSome = true
  agrees : ∀ x : Aspect, ¬at₁ x → x.Agrees h h'

/-- Nothing has changed that can be read off. -/
abbrev Quiet (h h' : Host) : Prop := Differs (fun _ => False) h h'

/-! ## 1. Putting footprints together -/

section
variable {at₁ at₂ : Aspect → Prop} {h h' h'' : Host} {who w : Handle}

theorem agrees_refl (x : Aspect) (h : Host) : x.Agrees h h := by
  cases x with
  | roster => exact ⟨rfl, fun _ => rfl⟩
  | service => exact ⟨rfl, rfl, rfl⟩
  | registered => exact ⟨rfl, rfl⟩
  | runState | config => exact fun _ => rfl
  | peripherals => exact fun _ => rfl
  | _ => rfl

theorem Differs.refl (at₁ : Aspect → Prop) (h : Host) : Differs at₁ h h :=
  ⟨rfl, Nat.le_refl _, fun _ hc => hc, fun x _ => agrees_refl x h⟩

theorem Differs.mono (hd : Differs at₁ h h') (hsub : ∀ x, at₁ x → at₂ x) : Differs at₂ h h' where
  setup := hd.setup
  clock := hd.clock
  known := hd.known
  agrees x hx := hd.agrees x fun h₁ => hx (hsub x h₁)

theorem Differs.trans (hd : Differs at₁ h h') (hd' : Differs at₁ h' h'') : Differs at₁ h h'' where
  setup := hd'.setup.trans hd.setup
  clock := Nat.le_trans hd.clock hd'.clock
  known who hc := hd'.known who (hd.known who hc)
  agrees x hx := by
    have ha := hd.agrees x hx
    have ha' := hd'.agrees x hx
    cases x with
    | roster => exact ⟨ha'.1.trans ha.1, fun who => (ha'.2 who).trans (ha.2 who)⟩
    | service =>
      exact ⟨ha'.1.trans ha.1, ha'.2.1.trans ha.2.1, ha'.2.2.trans ha.2.2⟩
    | registered => exact ⟨ha'.1.trans ha.1, ha'.2.trans ha.2⟩
    | runState who | config who => exact fun hc => (ha' (hd.known who hc)).trans (ha hc)
    | peripherals => exact fun name => (ha' name).trans (ha name)
    | _ => exact ha'.trans ha

theorem Differs.only {y : Aspect} (hd : Differs (· = y) h h') (hy : at₁ y) : Differs at₁ h h' :=
  hd.mono fun _ hx => hx ▸ hy

/-- Something quiet afterwards. -/
theorem Differs.quiet (hd : Differs at₁ h h') (hq : Quiet h' h'') : Differs at₁ h h'' :=
  hd.trans (hq.mono fun _ hf => hf.elim)

theorem Quiet.then (hq : Quiet h h') (hd : Differs at₁ h' h'') : Differs at₁ h h'' :=
  (hq.mono fun _ hf => hf.elim).trans hd

theorem differs_ite {p : Prop} [Decidable p] (hd : p → Differs at₁ h h')
    (hd' : ¬p → Differs at₁ h h'') : Differs at₁ h (if p then h' else h'') := by
  split
  · next hp => exact hd hp
  · next hp => exact hd' hp

theorem differs_foldl {α : Type} {f : Host → α → Host} (hf : ∀ h x, Differs at₁ h (f h x))
    (h : Host) (xs : List α) : Differs at₁ h (xs.foldl f h) := by
  induction xs generalizing h with
  | nil => exact .refl at₁ h
  | cons x xs ih => exact (hf h x).trans (ih (f h x))

/-- The host without what only threads and people look at. -/
def visible (h : Host) : Host :=
  { h with threads := [], unjoined := [], tasks := TaskQueue.empty, notices := [], terminals := [],
           orphans := [], transcripts := [], states := 0 }

theorem quiet_of_visible (hv : h'.visible = h.visible) : Quiet h h' := by
  have hr (x : Aspect) : x.Agrees h h' := by
    have hx : x.Agrees h.visible h'.visible := by
      rw [hv]
      exact agrees_refl x _
    exact hx
  have hsetup : h'.visible.setup = h.visible.setup := by rw [hv]
  have hclock : h'.visible.clock = h.visible.clock := by rw [hv]
  exact ⟨hsetup, Nat.le_of_eq hclock.symm, fun who hc => ((hr .roster).2 who).trans hc,
    fun x _ => hr x⟩

theorem modify_modify {f : Computer → Computer} (hf : ∀ c, (f c).handle = c.handle)
    (g : Computer → Computer) (h : Host) (w : Handle) :
    (h.modify w f).modify w g = h.modify w fun c => g (f c) := by
  unfold modify
  dsimp only
  rw [List.map_map]
  congr 1
  refine List.map_congr_left fun c _ => ?_
  simp only [Function.comp]
  split
  · next hw => rw [if_pos ((hf c).trans hw)]
  · rfl

theorem modify_id (h : Host) (w : Handle) : h.modify w (fun c => c) = h := by
  unfold modify
  simp

/-- What a change of a computer leaves of a reading of it. -/
theorem map_computer?_modify {α : Type} {f : Computer → Computer}
    (hf : ∀ c, (f c).handle = c.handle) {g : Computer → α}
    (hg : who = w → ∀ c, g (f c) = g c) :
    ((h.modify w f).computer? who).map g = (h.computer? who).map g := by
  rw [computer?_modify h w f hf, Option.map_map]
  cases hc : h.computer? who with
  | none => rfl
  | some c =>
    simp only [Option.map_some, Function.comp, Option.some.injEq]
    split
    · next hw => exact hg ((handle_of_computer? hc).symm.trans hw) c
    · rfl

/-- A reading after a change of one computer. -/
theorem reading_modify {α : Type} (f : Computer → Computer) (hf : ∀ c, (f c).handle = c.handle)
    (g : Computer → α) (none' : α) (h : Host) (w who : Handle) :
    (((h.modify w f).computer? who).map g).getD none' =
      if who = w then ((h.computer? w).map fun c => g (f c)).getD none'
      else ((h.computer? who).map g).getD none' := by
  split
  · next heq =>
    subst heq
    cases hc : h.computer? who with
    | none =>
      rw [computer?_modify h who f hf, hc]
      rfl
    | some c =>
      rw [computer?_modify_self hc f hf]
      rfl
  · next hne => rw [map_computer?_modify hf fun heq => absurd heq hne]

/-- An update has the answer of the computer, if there is one. -/
theorem update_fst {α : Type} (h : Host) (w : Handle) (f : Computer → α × Computer) (other : α) :
    (h.update w f other).1 = ((h.computer? w).map fun c => (f c).1).getD other := by
  unfold update
  cases h.computer? w <;> rfl

/-- An update leaves everything but the computers. -/
theorem update_frame {α : Type} (h : Host) (w : Handle) (f : Computer → α × Computer) (other : α) :
    (h.update w f other).2 = { h with computers := (h.update w f other).2.computers } := by
  unfold update
  split <;> rfl

/-- The computers after an update. -/
theorem computer?_update {α : Type} (h : Host) (w : Handle) (f : Computer → α × Computer) (other : α)
    (hf : ∀ c, (f c).2.handle = c.handle) (who : Handle) :
    (h.update w f other).2.computer? who = (h.modify w fun c => (f c).2).computer? who := by
  unfold update
  cases hc : h.computer? w with
  | some c => rfl
  | none =>
    rw [computer?_modify h w _ hf]
    cases hwho : h.computer? who with
    | none => rfl
    | some c =>
      have hne : c.handle ≠ w := fun heq => by
        rw [handle_of_computer? hwho] at heq
        rw [heq, hc] at hwho
        cases hwho
      rw [Option.map_some, if_neg hne]

/-- A reading after an update of one computer. -/
theorem reading_update {α β : Type} (h : Host) (w : Handle) (f : Computer → α × Computer) (other : α)
    (hf : ∀ c, (f c).2.handle = c.handle) (g : Computer → β) (none' : β) (who : Handle) :
    (((h.update w f other).2.computer? who).map g).getD none' =
      if who = w then ((h.computer? w).map fun c => g (f c).2).getD none'
      else ((h.computer? who).map g).getD none' := by
  rw [computer?_update h w f other hf, reading_modify _ hf]

theorem differs_modify (h : Host) (w : Handle) (f : Computer → Computer)
    (hf : ∀ c, (f c).handle = c.handle)
    (hsame : ∀ x : Aspect, x.who? = some w → ¬at₁ x → ∀ c, x.Same c (f c)) :
    Differs at₁ h (h.modify w f) := by
  have hsome (who : Handle) : ((h.modify w f).computer? who).isSome = (h.computer? who).isSome := by
    rw [computer?_modify h w f hf, Option.isSome_map]
  refine ⟨rfl, Nat.le_refl _, fun who hc => (hsome who).trans hc, fun x hx => ?_⟩
  have hread {α : Type} (g : Computer → α) (who : Handle) (hwho : x.who? = some who)
      (hg : ∀ c, x.Same c (f c) → g (f c) = g c) :
      ((h.modify w f).computer? who).map g = (h.computer? who).map g :=
    map_computer?_modify hf fun heq c => hg c (hsame x (heq ▸ hwho) hx c)
  cases x with
  | roster => exact ⟨rfl, hsome⟩
  | events who =>
    show ((Option.map _ _).getD []) = _
    rw [hread _ who rfl fun c hs => congrArg EventQueue.toList hs]
    rfl
  | runState who => exact fun _ => hread _ who rfl fun c hs => hs
  | config who => exact fun _ => hread _ who rfl fun c hs => hs
  | timers who | taken who => exact congrArg (Option.getD · []) (hread _ who rfl fun c hs => hs)
  | debounce who => exact congrArg (Option.getD · none) (hread _ who rfl fun c hs => hs)
  | sides who => exact congrArg (Option.getD · []) (hread _ who rfl fun c hs => hs)
  | connections who => exact congrArg (Option.getD · ([], 1)) (hread _ who rfl fun c hs => hs)
  | finalizers who => exact congrArg (Option.getD · []) (hread _ who rfl fun c hs => hs)
  | service => exact ⟨rfl, rfl, rfl⟩
  | registered => exact ⟨rfl, rfl⟩
  | peripherals => exact fun _ => rfl
  | _ => rfl

theorem differs_update {α : Type} (h : Host) (w : Handle) (f : Computer → α × Computer) (other : α)
    (hf : ∀ c, (f c).2.handle = c.handle)
    (hsame : ∀ x : Aspect, x.who? = some w → ¬at₁ x → ∀ c, x.Same c (f c).2) :
    Differs at₁ h (h.update w f other).2 := by
  unfold update
  cases h.computer? w with
  | none => exact .refl at₁ h
  | some c => exact differs_modify h w _ hf hsame

/-! ## 2. Single fields -/

theorem custodyOf_note (h : Host) (w : Handle) (deed : Deed) (who : Handle) :
    (h.note w deed).custodyOf who =
      h.custodyOf who ++ if w = who ∧ deed.isCustody = true then [deed] else [] := by
  unfold custodyOf note
  dsimp only
  rw [List.filter_append, List.map_append]
  congr 1
  by_cases hw : w = who <;> cases hd : deed.isCustody <;> simp [hw, hd]

/-- Changes of the journal. -/
theorem differs_journal (h : Host) (js : List JournalEntry)
    (hj : ∀ who, ¬at₁ (.custody who) →
      ({ h with journal := js } : Host).custodyOf who = h.custodyOf who) :
    Differs at₁ h { h with journal := js } := by
  refine ⟨rfl, Nat.le_refl _, fun _ hc => hc, fun x hx => ?_⟩
  have hr := agrees_refl x h
  cases x with
  | custody who => exact hj who hx
  | _ => exact hr

theorem differs_note (h : Host) (w : Handle) (deed : Deed) :
    Differs (· = .custody w) h (h.note w deed) := by
  refine differs_journal h _ fun who hne => ?_
  have hw : ¬w = who := fun heq => hne (by rw [heq])
  show (h.note w deed).custodyOf who = _
  rw [custodyOf_note, if_neg fun hn => hw hn.1, List.append_nil]

/-- Notes about other things than custody are quiet. -/
theorem quiet_note (h : Host) (w : Handle) {deed : Deed} (hd : deed.isCustody = false) :
    Quiet h (h.note w deed) := by
  refine differs_journal h _ fun who _ => ?_
  show (h.note w deed).custodyOf who = _
  rw [custodyOf_note, if_neg fun hn => Bool.false_ne_true (hd.symm.trans hn.2), List.append_nil]

/-- What has no owner is in nobody's custody. -/
theorem quiet_unowned (h : Host) {entries : List JournalEntry} (hnone : ∀ e ∈ entries, e.owner = none) :
    Quiet h { h with journal := h.journal ++ entries } := by
  refine differs_journal h _ fun who _ => ?_
  have hothers : entries.filter (fun e => e.owner == some who && e.deed.isCustody) = [] :=
    List.filter_eq_nil_iff.mpr fun e he => by simp [hnone e he]
  unfold custodyOf
  dsimp only
  rw [List.filter_append, hothers, List.append_nil]

/-- Changes of what no instance has. -/
theorem differs_of_computers (hs : h'.setup = h.setup) (hk : h.clock ≤ h'.clock)
    (hc : h'.computer? = h.computer?) (hj : ∀ who, h'.custodyOf who = h.custodyOf who)
    (ha : ∀ x : Aspect, x.who? = none → x ≠ .roster → ¬at₁ x → x.Agrees h h')
    (hg : h'.counters.generation = h.counters.generation) : Differs at₁ h h' := by
  refine ⟨hs, hk, fun who hsome => by rwa [hc], fun x hx => ?_⟩
  cases x with
  | roster => exact ⟨hg, fun who => by rw [hc]⟩
  | custody who => exact hj who
  | runState | config | events | timers | taken | debounce | sides | connections | finalizers =>
    simp [Aspect.Agrees, runState?, config?, queue, timersOf, takenTimersOf, debounceOf?, sidesOf,
      connectionTable, finalizersOf, hc]
  | _ => exact ha _ rfl (by simp) hx

/-- Two changes of a computer that come to the same. -/
theorem quiet_modify_modify {f g : Computer → Computer} (hf : ∀ c, (f c).handle = c.handle)
    (hg : ∀ c, (g c).handle = c.handle) (heq : ∀ c, h.computer? w = some c → f c = g c) :
    Quiet (h.modify w f) (h.modify w g) := by
  refine differs_of_computers rfl (Nat.le_refl _) ?_ (fun _ => rfl) (fun x hwho _ _ => ?_) rfl
  · funext who
    rw [computer?_modify h w g hg, computer?_modify h w f hf]
    refine Option.map_congr fun c hc => ?_
    split
    · next hw => rw [heq c (by rwa [← hw, handle_of_computer? hc])]
    · rfl
  · have hr := agrees_refl x (h.modify w f)
    cases x with
    | roster => exact absurd rfl ‹_›
    | events | runState | config | timers | taken | debounce | sides | connections | finalizers
    | custody => cases hwho
    | _ => exact hr

/-- A change of a computer that comes to nothing. -/
theorem quiet_of_modify {f : Computer → Computer} (hf : ∀ c, (f c).handle = c.handle)
    (heq : ∀ c, h.computer? w = some c → f c = c) : Quiet (h.modify w f) h := by
  have hq : Quiet (h.modify w f) (h.modify w fun c => c) :=
    quiet_modify_modify hf (fun _ => rfl) heq
  rwa [modify_id] at hq

theorem quiet_to_modify {f : Computer → Computer} (hf : ∀ c, (f c).handle = c.handle)
    (heq : ∀ c, h.computer? w = some c → f c = c) : Quiet h (h.modify w f) := by
  have hq : Quiet (h.modify w fun c => c) (h.modify w f) :=
    quiet_modify_modify (fun _ => rfl) hf fun c hc => (heq c hc).symm
  rwa [modify_id] at hq

/-- Changes of the registry. -/
theorem differs_registry (h : Host) (r : Registry)
    (hreg : ¬at₁ .registered → r.registered = h.registry.registered ∧ r.freed = h.registry.freed)
    (htimers : ¬at₁ .freedTimers → r.freedTimers = h.registry.freedTimers)
    (hrefs : ¬at₁ .references → r.references = h.registry.references) :
    Differs at₁ h { h with registry := r } := by
  refine differs_of_computers rfl (Nat.le_refl _) rfl (fun _ => rfl) (fun x _ _ hx => ?_) rfl
  have hr := agrees_refl x h
  cases x with
  | registered => exact hreg hx
  | freedTimers => exact htimers hx
  | references => exact hrefs hx
  | _ => exact hr

/-- Changes of the references alone. -/
theorem differs_references (h : Host) {r : Registry}
    (hr : r.registered = h.registry.registered ∧ r.freed = h.registry.freed ∧
      r.freedTimers = h.registry.freedTimers) :
    Differs (· = .references) h { h with registry := r } :=
  differs_registry h r (fun _ => ⟨hr.1, hr.2.1⟩) (fun _ => hr.2.2) fun hx => absurd rfl hx

/-- Changes of the service and of what it has handed over. -/
theorem differs_service (h : Host) (timers : TimerService) (due : List TimerEntry)
    (firing : Option TimerEntry) : Differs (· = .service) h { h with timers, due, firing } := by
  refine differs_of_computers rfl (Nat.le_refl _) rfl (fun _ => rfl) (fun x _ _ hx => ?_) rfl
  have hr := agrees_refl x h
  cases x with
  | service => exact absurd rfl hx
  | _ => exact hr

theorem peripheral?_setPeripheral (h : Host) (name : String) (p : Peripheral) (other : String) :
    (h.setPeripheral name p).peripheral? other =
      if other = name then (h.peripheral? name).map fun _ => p else h.peripheral? other := by
  unfold setPeripheral peripheral?
  dsimp only
  induction h.peripherals with
  | nil => simp
  | cons first rest ih =>
    obtain ⟨n, q⟩ := first
    by_cases hn : n = name
    · subst hn
      by_cases ho : other = n
      · subst ho
        simp
      · simpa [List.lookup_cons, ho, beq_eq_false_iff_ne.mpr ho] using ih
    · by_cases ho : other = n
      · subst ho
        simp [hn]
      · simpa [List.lookup_cons, hn, beq_eq_false_iff_ne.mpr ho,
          beq_eq_false_iff_ne.mpr (Ne.symm hn)] using ih

/-- Changes of what peripherals there are and what has happened to them. -/
theorem differs_peripherals (h : Host) (ps : List (String × Peripheral)) :
    Differs (· = .peripherals) h { h with peripherals := ps } := by
  refine differs_of_computers rfl (Nat.le_refl _) rfl (fun _ => rfl) (fun x _ _ hx => ?_) rfl
  have hr := agrees_refl x h
  cases x with
  | peripherals => exact absurd rfl hx
  | _ => exact hr

theorem differs_setPeripheral (h : Host) (name : String) (p : Peripheral) :
    Differs (· = .peripherals) h (h.setPeripheral name p) :=
  differs_peripherals h _

/-- What happens to a device does not matter to links. -/
theorem quiet_setDevice {name : String} {d : Device} (hp : h.peripheral? name = some (.device d))
    (d' : Device) : Quiet h (h.setPeripheral name (.device d')) := by
  have hd := differs_setPeripheral h name (.device d')
  refine ⟨hd.setup, hd.clock, hd.known, fun x _ => ?_⟩
  by_cases hx : x = .peripherals
  · subst hx
    intro other
    rw [peripheral?_setPeripheral]
    split
    · next ho => rw [ho, hp]; rfl
    · rfl
  · exact hd.agrees x hx

theorem differs_newTimer (h : Host) :
    Differs (· = .numbering) h { h with counters := h.counters.newTimer.2 } := by
  refine differs_of_computers rfl (Nat.le_refl _) rfl (fun _ => rfl) (fun x _ _ hx => ?_) rfl
  have hr := agrees_refl x h
  cases x with
  | numbering => exact absurd rfl hx
  | _ => exact hr

theorem differs_tree (h : Host) (tree : FileTree) : Differs (· = .tree) h { h with tree } := by
  refine differs_of_computers rfl (Nat.le_refl _) rfl (fun _ => rfl) (fun x _ _ hx => ?_) rfl
  have hr := agrees_refl x h
  cases x with
  | tree => exact absurd rfl hx
  | _ => exact hr

theorem differs_files (h : Host) (tree : FileTree) (store : ConfigStore) :
    Differs (fun x => x = .tree ∨ x = .store) h { h with tree, store } := by
  refine differs_of_computers rfl (Nat.le_refl _) rfl (fun _ => rfl) (fun x _ _ hx => ?_) rfl
  have hr := agrees_refl x h
  cases x with
  | tree => exact absurd (.inl rfl) hx
  | store => exact absurd (.inr rfl) hx
  | _ => exact hr

end

end Host

end ComputerHost

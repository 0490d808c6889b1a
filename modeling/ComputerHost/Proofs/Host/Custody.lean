import ComputerHost.Proofs.Host.LinkTeardown

/-!
# Letting go

What a computer holds is let go by a few functions, and whatever they let go of is noted in the journal.
For each of them: what is left, and what has been noted. `Noted` is the weaker statement that nothing but
deeds of a kind has been noted about a computer; it is enough for those who care about another kind.

Results:
1. `Noted.filterMap_eq`: what a reading of the journal does not see.
2. `closeConnection_eq`, `closeConnections_eq`: connections.
3. `releasedOf_detach`, `releasedOf_releasePeripherals`: peripherals.
4. `runFinalizers_eq`: finalizers, and the settings that they leave.
5. `noted_on`: which deeds a change can note.
-/

namespace ComputerHost

namespace Deed

/-- The peripheral that was let go, if it was that. -/
def released? : Deed → Option String
  | .detached name | .unlinked name => some name
  | _ => none

def closed? : Deed → Option String
  | .closed connection => some connection
  | _ => none

def finalized? : Deed → Option String
  | .finalized name => some name
  | _ => none

end Deed

/-- The deeds that a change may note about `who`. -/
def Change.Notes (who : Handle) : Change → Deed → Prop
  | attach w _ name, d => w = who ∧ (d = .attached name ∨ d = .linked name)
  | detach w _, d | teardown w .releasePeripherals, d => w = who ∧ d.released?.isSome = true
  | teardown _ .detachReferences, d => d.released?.isSome = true
  | disconnect w _, d | disconnectAll w, d | teardown w .closeConnections, d =>
    w = who ∧ d.closed?.isSome = true
  | teardown w .runFinalizers, d => w = who ∧ d.finalized?.isSome = true
  | teardown w .saveConfig, d => w = who ∧ d = .saved
  | _, _ => False

/-- The change closes connections of `who`. -/
def Change.Closes (who : Handle) : Change → Prop
  | disconnect w _ | disconnectAll w | teardown w .closeConnections => w = who
  | _ => False

/-- The change takes peripherals away from `who`, or may do so. -/
def Change.LetsGo (who : Handle) : Change → Prop
  | detach w _ | teardown w .releasePeripherals => w = who
  | teardown _ .detachReferences => True
  | _ => False

section
variable {who : Handle} {x : Change} {d : Deed}

theorem Change.closes_of_notes (hn : x.Notes who d) (hd : d.closed? ≠ none) : x.Closes who := by
  cases d with
  | closed name =>
    unfold Change.Notes at hn
    split at hn <;> simp_all [Change.Closes, Deed.released?, Deed.finalized?]
  | _ => exact absurd rfl hd

theorem Change.letsGo_of_notes (hn : x.Notes who d) (hd : d.released? ≠ none) : x.LetsGo who := by
  cases d with
  | detached | unlinked =>
    unfold Change.Notes at hn
    split at hn <;> simp_all [Change.LetsGo, Deed.closed?, Deed.finalized?]
  | _ => exact absurd rfl hd

theorem Change.finalizes_of_notes (hn : x.Notes who d) (hd : d.finalized? ≠ none) :
    x = .teardown who .runFinalizers := by
  cases d with
  | finalized =>
    unfold Change.Notes at hn
    split at hn <;> simp_all [Deed.closed?, Deed.released?]
  | _ => exact absurd rfl hd

end

namespace Host

/-- The peripherals that were let go by a computer, in order. -/
def releasedOf (h : Host) (who : Handle) : List String := (h.custodyOf who).filterMap Deed.released?

def closedOf (h : Host) (who : Handle) : List String := (h.custodyOf who).filterMap Deed.closed?

def finalizedOf (h : Host) (who : Handle) : List String := (h.custodyOf who).filterMap Deed.finalized?

/-- From the first host to the second one nothing has been noted about `who` but deeds of a kind. -/
def Noted (who : Handle) (kind : Deed → Prop) (h h' : Host) : Prop :=
  ∃ deeds, h'.custodyOf who = h.custodyOf who ++ deeds ∧ ∀ d ∈ deeds, kind d

section
variable {h h' h'' : Host} {who w : Handle} {side name : String} {kind : Deed → Prop}

/-! ## 1. What is noted -/

theorem Noted.of_eq (heq : h'.custodyOf who = h.custodyOf who) : Noted who kind h h' :=
  ⟨[], by rw [heq, List.append_nil], fun d hd => absurd hd List.not_mem_nil⟩

theorem Noted.trans (hn : Noted who kind h h') (hn' : Noted who kind h' h'') :
    Noted who kind h h'' := by
  obtain ⟨deeds, heq, hdeeds⟩ := hn
  obtain ⟨deeds', heq', hdeeds'⟩ := hn'
  refine ⟨deeds ++ deeds', by rw [heq', heq, List.append_assoc], ?_⟩
  rw [List.forall_mem_append]
  exact ⟨hdeeds, hdeeds'⟩

theorem Noted.mono {kind' : Deed → Prop} (hn : Noted who kind h h') (hsub : ∀ d, kind d → kind' d) :
    Noted who kind' h h' := by
  obtain ⟨deeds, heq, hdeeds⟩ := hn
  exact ⟨deeds, heq, fun d hd => hsub d (hdeeds d hd)⟩

theorem noted_foldl {α : Type} {f : Host → α → Host} (hf : ∀ h x, Noted who kind h (f h x)) (h : Host)
    (xs : List α) : Noted who kind h (xs.foldl f h) := by
  induction xs generalizing h with
  | nil => exact .of_eq rfl
  | cons x xs ih => exact (hf h x).trans (ih (f h x))

/-- A reading of the journal that does not care about deeds of this kind. -/
theorem Noted.filterMap_eq {f : Deed → Option String} (hn : Noted who kind h h')
    (hf : ∀ d, kind d → f d = none) :
    (h'.custodyOf who).filterMap f = (h.custodyOf who).filterMap f := by
  obtain ⟨deeds, heq, hdeeds⟩ := hn
  have hnone : deeds.filterMap f = [] :=
    List.filterMap_eq_nil_iff.mpr fun d hd => hf d (hdeeds d hd)
  rw [heq, List.filterMap_append, hnone, List.append_nil]

/-- Each of several steps notes one deed. -/
theorem custodyOf_foldl {α : Type} {f : Host → α → Host} {d : α → Deed}
    (hf : ∀ h x, (f h x).custodyOf who = h.custodyOf who ++ [d x]) (h : Host) (xs : List α) :
    (xs.foldl f h).custodyOf who = h.custodyOf who ++ xs.map d := by
  induction xs generalizing h with
  | nil => rw [List.foldl_nil, List.map_nil, List.append_nil]
  | cons x xs ih => rw [List.foldl_cons, ih, hf, List.map_cons, List.append_assoc]; rfl

theorem custodyOf_update {α : Type} (h : Host) (w : Handle) (f : Computer → α × Computer) (other : α)
    (who : Handle) : (h.update w f other).2.custodyOf who = h.custodyOf who := by
  unfold update
  split <;> rfl

/-! ## 2. Connections -/

theorem openConnection_fst (hc : (h.computer? who).isSome = true) (name : String) :
    (h.openConnection who name).1 = (h.connectionTable who).2 := by
  obtain ⟨c, hc⟩ := Option.isSome_iff_exists.mp hc
  unfold openConnection connectionTable
  rw [update_fst, hc]
  rfl

theorem connectionTable_openConnection (hc : (h.computer? who).isSome = true) (name : String) :
    (h.openConnection who name).2.connectionTable who =
      (h.connectionsOf who ++ [⟨(h.connectionTable who).2, name⟩], (h.connectionTable who).2 + 1) := by
  obtain ⟨c, hc⟩ := Option.isSome_iff_exists.mp hc
  have hread := reading_update h who (·.openConnection name) 0 (fun _ => rfl)
    (fun c => (c.connections, c.nextConnection)) ([], 1) who
  rw [if_pos rfl, hc] at hread
  unfold connectionsOf connectionTable
  rw [hc]
  exact hread

/-- Closing one connection: it is taken from the table if it is there, and that is noted. -/
theorem closeConnection_eq (h : Host) (who : Handle) (id : Nat) :
    (h.closeConnection who id).2.connectionTable who =
        ((h.connectionsOf who).filter (·.id != id), (h.connectionTable who).2) ∧
      (h.closeConnection who id).2.custodyOf who =
        h.custodyOf who ++ ((h.connectionsOf who).find? (·.id == id)).toList.map (.closed ·.name) := by
  have htable : (h.update who (·.takeConnection id) none).2.connectionTable who =
      ((h.connectionsOf who).filter (·.id != id), (h.connectionTable who).2) := by
    have hread := reading_update h who (·.takeConnection id) none (fun _ => rfl)
      (fun c => (c.connections, c.nextConnection)) ([], 1) who
    rw [if_pos rfl] at hread
    refine hread.trans ?_
    unfold connectionsOf connectionTable
    cases h.computer? who <;> rfl
  have hfound : (h.update who (·.takeConnection id) none).1 =
      (h.connectionsOf who).find? (·.id == id) := by
    unfold connectionsOf connectionTable
    rw [update_fst]
    cases h.computer? who <;> rfl
  have hjournal := custodyOf_update h who (·.takeConnection id) none who
  unfold closeConnection
  rcases hu : h.update who (·.takeConnection id) none with ⟨_ | c, h₁⟩
  · rw [hu] at htable hfound hjournal
    exact ⟨htable, by rw [← hfound]; exact hjournal.trans (List.append_nil _).symm⟩
  · rw [hu] at htable hfound hjournal
    refine ⟨((differs_note h₁ who (.closed c.name)).agrees (.connections who)
      Aspect.noConfusion).trans htable, ?_⟩
    show (h₁.note who (.closed c.name)).custodyOf who = _
    rw [custodyOf_note, if_pos ⟨rfl, rfl⟩, ← hfound]
    exact congrArg (· ++ [Deed.closed c.name]) hjournal

/-- Closing all connections. -/
theorem closeConnections_eq (h : Host) (who : Handle) :
    (h.closeConnections who).connectionTable who = ([], (h.connectionTable who).2) ∧
      (h.closeConnections who).custodyOf who =
        h.custodyOf who ++ (h.connectionsOf who).map (.closed ·.name) := by
  have htable : (h.update who Computer.takeConnections []).2.connectionTable who =
      ([], (h.connectionTable who).2) := by
    have hread := reading_update h who Computer.takeConnections [] (fun _ => rfl)
      (fun c => (c.connections, c.nextConnection)) ([], 1) who
    rw [if_pos rfl] at hread
    refine hread.trans ?_
    unfold connectionTable
    cases h.computer? who <;> rfl
  have hfound : (h.update who Computer.takeConnections []).1 = h.connectionsOf who := by
    unfold connectionsOf connectionTable
    rw [update_fst]
    cases h.computer? who <;> rfl
  have hjournal := custodyOf_update h who Computer.takeConnections [] who
  unfold closeConnections
  rcases hu : h.update who Computer.takeConnections [] with ⟨closed, h₁⟩
  rw [hu] at htable hfound hjournal
  obtain rfl : closed = h.connectionsOf who := hfound
  constructor
  · exact ((differs_foldl (fun h c => differs_note h who (.closed c.name)) h₁
      (h.connectionsOf who)).agrees (.connections who) Aspect.noConfusion).trans htable
  · show ((h.connectionsOf who).foldl (fun h c => h.note who (.closed c.name)) h₁).custodyOf who = _
    rw [custodyOf_foldl (d := fun c : Connection => .closed c.name) fun h c => ?_]
    · exact congrArg (· ++ _) hjournal
    · rw [custodyOf_note, if_pos ⟨rfl, rfl⟩]

/-! ## 3. Peripherals -/

theorem released?_detachDeed (p : Peripheral) (name : String) :
    (p.detachDeed name).released? = some name := by
  cases p <;> rfl

theorem noted_tellDetached (h : Host) (name : String) (w : Handle) :
    Noted who (fun d => w = who ∧ d.released?.isSome = true) h (h.tellDetached name w) := by
  cases hp : h.peripheral? name with
  | none =>
    refine .of_eq ?_
    unfold tellDetached
    rw [hp]
  | some p =>
    refine ⟨_, custodyOf_tellDetached hp w who, fun d hd => ?_⟩
    split at hd
    · next hw => exact ⟨hw, by rw [List.mem_singleton.mp hd, released?_detachDeed]; rfl⟩
    · cases hd

theorem noted_detach (h : Host) (w : Handle) (side : String) :
    Noted who (fun d => w = who ∧ d.released?.isSome = true) h (h.detach w side).2 := by
  rcases detach_cases h w side with ⟨-, heq⟩ | ⟨name, -, heq⟩
  · rw [heq]
    exact .of_eq rfl
  · rw [heq]
    exact (noted_tellDetached (h.modify w _) name w).trans
      (.of_eq ((differs_queueEvent _ w _).agrees (.custody who) Aspect.noConfusion))

theorem noted_releasePeripherals (h : Host) (w : Handle) :
    Noted who (fun d => w = who ∧ d.released?.isSome = true) h (h.releasePeripherals w) := by
  obtain ⟨h₁, hd, -, -, heq⟩ := releasePeripherals_eq h w
  rw [heq]
  exact .trans (.of_eq (hd.agrees (.custody who) Aspect.noConfusion))
    (noted_foldl (fun h name => noted_tellDetached h name w) h₁ _)

theorem noted_detachReferences (h : Host) (w : Handle) :
    Noted who (fun d => d.released?.isSome = true) h (h.detachReferences w) := by
  unfold detachReferences
  dsimp only
  generalize hh : ({ h with registry := (h.registry.takeReferences w).2 } : Host) = h₁
  have htaken : Noted who (fun d => d.released?.isSome = true) h h₁ := hh ▸ .of_eq rfl
  refine htaken.trans (noted_foldl (fun h r => ?_) h₁ _)
  split
  · unfold detachReference
    dsimp only
    split
    · exact (noted_detach h r.referencer r.side).mono fun d hd => hd.2
    · exact .of_eq rfl
  · exact .of_eq rfl

/-- The peripherals that are told are noted, if they are known. -/
theorem releasedOf_foldl_tellDetached (names : List String)
    (hnames : ∀ n ∈ names, (h.peripheral? n).isSome = true) (who : Handle) :
    (names.foldl (fun h name => h.tellDetached name who) h).releasedOf who =
      h.releasedOf who ++ names := by
  induction names generalizing h with
  | nil => exact (List.append_nil _).symm
  | cons name rest ih =>
    rw [List.forall_mem_cons] at hnames
    obtain ⟨p, hp⟩ := Option.isSome_iff_exists.mp hnames.1
    have hfirst : (h.tellDetached name who).releasedOf who = h.releasedOf who ++ [name] := by
      unfold releasedOf
      rw [custodyOf_tellDetached hp, if_pos rfl, List.filterMap_append]
      simp [released?_detachDeed]
    rw [List.foldl_cons, ih fun n hn => by rw [isSome_tellDetached]; exact hnames.2 n hn, hfirst,
      List.append_assoc]
    rfl

theorem releasedOf_releasePeripherals
    (hnamed : ∀ e ∈ h.sidesOf who, (h.peripheral? e.2).isSome = true) :
    (h.releasePeripherals who).releasedOf who = h.releasedOf who ++ (h.sidesOf who).map (·.2) := by
  obtain ⟨h₁, hd, hperipheral, -, heq⟩ := releasePeripherals_eq h who
  have hjournal : h₁.releasedOf who = h.releasedOf who :=
    congrArg (List.filterMap _) (hd.agrees (.custody who) Aspect.noConfusion)
  rw [heq, releasedOf_foldl_tellDetached _ fun n hn => ?_, hjournal]
  obtain ⟨e, he, rfl⟩ := List.mem_map.mp hn
  rw [hperipheral]
  exact hnamed e he

theorem releasedOf_detach (hs : (h.sidesOf who).lookup side = some name)
    (hp : (h.peripheral? name).isSome = true) :
    (h.detach who side).2.releasedOf who = h.releasedOf who ++ [name] := by
  obtain ⟨p, hp⟩ := Option.isSome_iff_exists.mp hp
  unfold releasedOf
  rw [custodyOf_detach hs hp, if_pos rfl, List.filterMap_append]
  simp [released?_detachDeed]

/-! ## 4. Finalizers and settings -/

theorem finalizersOf_addFinalizer (hc : (h.computer? who).isSome = true) (name : String) :
    (h.addFinalizer who name).finalizersOf who = h.finalizersOf who ++ [name] := by
  obtain ⟨c, hc⟩ := Option.isSome_iff_exists.mp hc
  unfold finalizersOf addFinalizer
  rw [reading_modify (fun c => { c with finalizers := c.finalizers ++ [name] }) (fun _ => rfl),
    if_pos rfl, hc]
  rfl

theorem config?_modify (h : Host) (who : Handle) (f : ComputerConfig → ComputerConfig) :
    (h.modify who fun c => { c with config := f c.config }).config? who = (h.config? who).map f := by
  let g : Computer → Computer := fun c => { c with config := f c.config }
  show ((h.modify who g).computer? who).map (·.config) = ((h.computer? who).map (·.config)).map f
  rw [computer?_modify h who g fun _ => rfl]
  cases hc : h.computer? who with
  | none => rfl
  | some c => simp [g, handle_of_computer? hc]

/-- Running one finalizer, and what it makes of the settings. -/
theorem runFinalizer_eq (h : Host) (who : Handle) (name : String) :
    (h.runFinalizer who name).setup = h.setup ∧
      (h.runFinalizer who name).config? who = (h.config? who).map (h.setup.finalize name) ∧
      (h.runFinalizer who name).custodyOf who = h.custodyOf who ++ [.finalized name] ∧
      (h.runFinalizer who name).finalizersOf who = h.finalizersOf who := by
  refine ⟨rfl, config?_modify h who _, ?_, ?_⟩
  · unfold runFinalizer
    rw [custodyOf_note, if_pos ⟨rfl, rfl⟩]
    rfl
  · unfold runFinalizer finalizersOf
    exact (reading_modify (fun c => { c with config := h.setup.finalize name c.config })
      (fun _ => rfl) (·.finalizers) [] h who who).trans (by rw [if_pos rfl])

/-- Each finalizer runs on what the one before has left. -/
theorem foldl_runFinalizer (names : List String) (h : Host) (who : Handle) :
    (names.foldl (fun h name => h.runFinalizer who name) h).finalizersOf who = h.finalizersOf who ∧
      (names.foldl (fun h name => h.runFinalizer who name) h).custodyOf who =
        h.custodyOf who ++ names.map .finalized ∧
      (names.foldl (fun h name => h.runFinalizer who name) h).config? who =
        (h.config? who).map (names.foldl fun c name => h.setup.finalize name c) := by
  induction names generalizing h with
  | nil => exact ⟨rfl, (List.append_nil _).symm, (Option.map_id' (x := h.config? who)).symm⟩
  | cons name rest ih =>
    obtain ⟨hsetup, hconfig, hjournal, hleft⟩ := runFinalizer_eq h who name
    obtain ⟨ihleft, ihjournal, ihconfig⟩ := ih (h.runFinalizer who name)
    refine ⟨ihleft.trans hleft, ?_, ?_⟩
    · rw [List.foldl_cons, ihjournal, hjournal, List.append_assoc]
      rfl
    · rw [List.foldl_cons, ihconfig, hconfig, hsetup, Option.map_map]
      rfl

/-- All finalizers of a computer are taken out, and each is run. -/
theorem runFinalizers_eq (h : Host) (who : Handle) :
    (h.runFinalizers who).finalizersOf who = [] ∧
      (h.runFinalizers who).custodyOf who =
        h.custodyOf who ++ (h.finalizersOf who).map .finalized ∧
      (h.runFinalizers who).config? who = (h.config? who).map
        ((h.finalizersOf who).foldl fun c name => h.setup.finalize name c) := by
  have hempty := reading_update h who (fun c => (c.finalizers, { c with finalizers := [] })) []
    (fun _ => rfl) (·.finalizers) [] who
  have hconfig : (h.update who (fun c => (c.finalizers, { c with finalizers := [] })) []).2.config? who =
      h.config? who := by
    unfold config?
    rw [computer?_update h who _ _ fun _ => rfl]
    exact map_computer?_modify (f := fun c => { c with finalizers := [] }) (fun _ => rfl)
      fun _ _ => rfl
  have hsetup : (h.update who (fun c => (c.finalizers, { c with finalizers := [] })) []).2.setup =
      h.setup :=
    congrArg (·.setup) (update_frame ..)
  have hfound : (h.update who (fun c => (c.finalizers, { c with finalizers := [] })) []).1 =
      h.finalizersOf who := update_fst ..
  have hjournal := custodyOf_update h who (fun c => (c.finalizers, { c with finalizers := [] })) [] who
  unfold runFinalizers
  rcases hu : h.update who (fun c => (c.finalizers, { c with finalizers := [] })) [] with ⟨names, h₁⟩
  rw [hu] at hempty hconfig hsetup hfound hjournal
  obtain rfl : names = h.finalizersOf who := hfound
  obtain ⟨hleft, hnoted, hsettings⟩ := foldl_runFinalizer (h.finalizersOf who) h₁ who
  refine ⟨?_, ?_, ?_⟩
  · refine hleft.trans (hempty.trans ?_)
    rw [if_pos rfl]
    cases h.computer? who <;> rfl
  · exact hnoted.trans (congrArg (· ++ _) hjournal)
  · refine hsettings.trans ?_
    have hconfig : h₁.config? who = h.config? who := hconfig
    have hsetup : h₁.setup = h.setup := hsetup
    rw [hconfig, hsetup]

theorem custodyOf_saveConfig (h : Host) (who : Handle) :
    (h.saveConfig who).custodyOf who =
      h.custodyOf who ++ if (h.computer? who).isSome then [.saved] else [] := by
  unfold saveConfig
  cases h.computer? who with
  | none => exact (List.append_nil _).symm
  | some c =>
    dsimp only
    rw [custodyOf_note, if_pos ⟨rfl, rfl⟩]
    rfl

/-! ## 5. What changes note -/

/-- Deeds that are noted about one computer. -/
theorem noted_of_self {deeds : List Deed} (hself : h'.custodyOf w = h.custodyOf w ++ deeds)
    (hkind : ∀ d ∈ deeds, kind d) (hother : who ≠ w → h'.custodyOf who = h.custodyOf who) :
    Noted who (fun d => w = who ∧ kind d) h h' := by
  by_cases hw : w = who
  · subst hw
    exact ⟨deeds, hself, fun d hd => ⟨rfl, hkind d hd⟩⟩
  · exact .of_eq (hother (Ne.symm hw))

/-- A change notes about a computer what `Change.Notes` says, and nothing else. -/
theorem noted_on (x : Change) (h : Host) (who : Handle) : Noted who (x.Notes who) h (x.on h) := by
  have hsame (hx : ¬x.Touches (.custody who)) : (x.on h).custodyOf who = h.custodyOf who :=
    (differs_on x h).agrees (.custody who) hx
  cases x with
  | attach w side name =>
    rcases attach_cases h w side name with heq | ⟨-, -, ⟨p, hp⟩, heq⟩
    · exact .of_eq (by rw [Change.on, heq])
    · have ha : (h.attach w side name).1 = true := by rw [heq]
      refine noted_of_self ((custodyOf_attach ha hp w).trans (by rw [if_pos rfl])) (fun d hd => ?_) hsame
      rw [List.mem_singleton.mp hd]
      cases p
      · exact .inl rfl
      · exact .inr rfl
  | detach w side => exact noted_detach h w side
  | disconnect w id =>
    refine noted_of_self (closeConnection_eq h w id).2 (fun d hd => ?_) fun hne =>
      hsame (by simp [Change.Touches, hne])
    obtain ⟨c, -, rfl⟩ := List.mem_map.mp hd
    rfl
  | disconnectAll w =>
    refine noted_of_self (closeConnections_eq h w).2 (fun d hd => ?_) fun hne =>
      hsame (by simp [Change.Touches, hne])
    obtain ⟨c, -, rfl⟩ := List.mem_map.mp hd
    rfl
  | teardown w step =>
    cases step with
    | releasePeripherals => exact noted_releasePeripherals h w
    | detachReferences => exact noted_detachReferences h w
    | runFinalizers =>
      refine noted_of_self (runFinalizers_eq h w).2.1 (fun d hd => ?_) hsame
      obtain ⟨name, -, rfl⟩ := List.mem_map.mp hd
      rfl
    | saveConfig =>
      refine noted_of_self (custodyOf_saveConfig h w) (fun d hd => ?_) hsame
      split at hd
      · exact List.mem_singleton.mp hd
      · cases hd
    | closeConnections =>
      refine noted_of_self (closeConnections_eq h w).2 (fun d hd => ?_) hsame
      obtain ⟨c, -, rfl⟩ := List.mem_map.mp hd
      rfl
    | _ => exact .of_eq (hsame not_false)
  | spawn | resolve | fire => exact .of_eq (hsame not_false)
  | turnOn => exact .of_eq (hsame (by simp [Change.Touches, Aspect.OfSpawn]))
  | _ => exact .of_eq (hsame (by simp [Change.Touches]))

end

end Host

end ComputerHost

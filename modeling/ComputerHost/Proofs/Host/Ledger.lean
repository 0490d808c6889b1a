import ComputerHost.Proofs.Host.Course
import ComputerHost.Proofs.Host.Custody

/-!
# The books about a computer

What a computer is given comes from calls: connections, peripherals and finalizers. What has become of it
stands in the journal. Along a course both are counted, and `Ledger` is the balance: what was given is
what was let go and what is still held, each thing once.

Connections are told apart by their numbers. Their books are kept from the table: an occurrence has closed
what it has taken from there.

Results:
1. `Sheds.trans`, `perm_balance`: lists that are left alone or emptied.
2. `Occurs.connections`: the connections in one occurrence.
3. `Occurs.peripherals`: the peripherals.
4. `Occurs.finalizers`: the finalizers.
5. `Occurs.ledger`, `Course.ledger`: the balance.
-/

namespace ComputerHost.Host

namespace Occurrence

/-- The connections that were opened for `who`. -/
def opened (who : Handle) (o : Occurrence) : List Connection :=
  o.changes.flatMap fun
    | .connect w name => if w = who then [⟨(o.before.openConnection who name).1, name⟩] else []
    | _ => []

/-- The connections that were taken from the table. -/
def closed (who : Handle) (o : Occurrence) : List Connection :=
  (o.before.connectionsOf who).filter (· ∉ o.after.connectionsOf who)

/-- The peripherals that were attached to `who`. -/
def attached (who : Handle) (o : Occurrence) : List String :=
  o.changes.flatMap fun
    | .attach w side name => if w = who ∧ (o.before.attach w side name).1 = true then [name] else []
    | _ => []

/-- The finalizers that were added for `who`. -/
def added (who : Handle) (o : Occurrence) : List String :=
  o.changes.flatMap fun
    | .addFinalizer w name => if w = who then [name] else []
    | _ => []

end Occurrence

def openedOf (who : Handle) (trace : List Occurrence) : List Connection :=
  trace.flatMap (·.opened who)

def takenOf (who : Handle) (trace : List Occurrence) : List Connection :=
  trace.flatMap (·.closed who)

def attachedOf (who : Handle) (trace : List Occurrence) : List String :=
  trace.flatMap (·.attached who)

def addedOf (who : Handle) (trace : List Occurrence) : List String := trace.flatMap (·.added who)

/-- The names of the peripherals that a computer has. -/
def namesOf (h : Host) (who : Handle) : List String := (h.sidesOf who).map (·.2)

/-- The books of one occurrence, for connections. -/
structure Occurrence.Books (who : Handle) (o : Occurrence) : Prop where
  balance : (o.before.connectionsOf who ++ o.opened who).Perm
    (o.closed who ++ o.after.connectionsOf who)
  noted : o.after.closedOf who = o.before.closedOf who ++ (o.closed who).map (·.name)
  /-- A connection that is opened gets the next number. -/
  numbers : o.opened who = [] ∧ (o.after.connectionTable who).2 = (o.before.connectionTable who).2 ∨
    ∃ name, o.opened who = [⟨(o.before.connectionTable who).2, name⟩] ∧
      (o.after.connectionTable who).2 = (o.before.connectionTable who).2 + 1

/-- There is one peripheral at a side at most, and all of them are known. -/
structure Holds (who : Handle) (h : Host) : Prop where
  sides : ((h.sidesOf who).map (·.1)).Nodup
  named : ∀ e ∈ h.sidesOf who, (h.peripheral? e.2).isSome = true

/-- What was given to a computer along a trace is what was let go and what it still has. -/
structure Ledger (who : Handle) (trace : List Occurrence) (h : Host) : Prop where
  known : (h.computer? who).isSome = true
  drawn : ∀ c ∈ openedOf who trace, c.id < (h.connectionTable who).2
  /-- No number is given twice. -/
  distinct : ((openedOf who trace).map (·.id)).Nodup
  connections : (openedOf who trace).Perm (takenOf who trace ++ h.connectionsOf who)
  closings : h.closedOf who = (takenOf who trace).map (·.name)
  holds : Holds who h
  peripherals : (attachedOf who trace).Perm (h.releasedOf who ++ h.namesOf who)
  finalizers : addedOf who trace = h.finalizedOf who ++ h.finalizersOf who

section
variable {who w : Handle} {h h' h'' : Host} {mover : Option Handle} {changes : List Change}

/-! ## 1. Lists that are emptied -/

/-- A list of things that a computer holds is left alone, or all of it is let go, and noted. -/
def Sheds {α : Type} (held : Host → List α) (name : α → String) (noted : Host → List String)
    (h h' : Host) : Prop :=
  held h' = held h ∧ noted h' = noted h ∨
    held h' = [] ∧ noted h' = noted h ++ (held h).map name

theorem Sheds.trans {α : Type} {held : Host → List α} {name : α → String} {noted : Host → List String}
    (hs : Sheds held name noted h h') (hs' : Sheds held name noted h' h'') :
    Sheds held name noted h h'' := by
  rcases hs with ⟨hheld, hnoted⟩ | ⟨hheld, hnoted⟩
  · unfold Sheds
    rw [← hheld, ← hnoted]
    exact hs'
  · right
    rcases hs' with ⟨hheld', hnoted'⟩ | ⟨hheld', hnoted'⟩
    · exact ⟨hheld'.trans hheld, hnoted'.trans hnoted⟩
    · rw [hheld, List.map_nil, List.append_nil] at hnoted'
      exact ⟨hheld', hnoted'.trans hnoted⟩

/-- Of nothing there is nothing to let go. -/
theorem Sheds.of_nil {α : Type} {held : Host → List α} {name : α → String} {noted : Host → List String}
    (hs : Sheds held name noted h h') (hempty : held h = []) : held h' = [] ∧ noted h' = noted h := by
  rcases hs with ⟨hheld, hnoted⟩ | ⟨hheld, hnoted⟩
  · exact ⟨hheld.trans hempty, hnoted⟩
  · rw [hempty, List.map_nil, List.append_nil] at hnoted
    exact ⟨hheld, hnoted⟩

/-- What is let go moves from one side of the balance to the other. -/
theorem perm_balance {α : Type} {given gone held held' more less : List α}
    (hb : given.Perm (gone ++ held)) (hstep : (held ++ more).Perm (less ++ held')) :
    (given ++ more).Perm ((gone ++ less) ++ held') := by
  calc
    (given ++ more).Perm ((gone ++ held) ++ more) := hb.append_right more
    _ = gone ++ (held ++ more) := List.append_assoc ..
    (gone ++ (held ++ more)).Perm (gone ++ (less ++ held')) := hstep.append_left gone
    _ = (gone ++ less) ++ held' := (List.append_assoc ..).symm

/-! ## 2. Connections -/

/-- What threads do gives nothing to a computer. -/
theorem given_of_thread (o : Occurrence) (ho : ∀ x ∈ o.changes, x.OfThread) (who : Handle) :
    o.opened who = [] ∧ o.attached who = [] ∧ o.added who = [] := by
  unfold Occurrence.opened Occurrence.attached Occurrence.added
  simp only [List.flatMap_eq_nil_iff]
  refine ⟨fun x hx => ?_, fun x hx => ?_, fun x hx => ?_⟩
  all_goals
    have ht := ho x hx
    cases x <;> first | rfl | exact ht.elim

/-- What threads do adds nothing to what a computer was given before. -/
theorem given_before_thread (who : Handle) (past : List Occurrence) {moves : List Occurrence}
    (hmoves : ∀ o ∈ moves, ∀ x ∈ o.changes, x.OfThread) :
    openedOf who (past ++ moves) = openedOf who past ∧
      attachedOf who (past ++ moves) = attachedOf who past ∧
      addedOf who (past ++ moves) = addedOf who past := by
  unfold openedOf attachedOf addedOf
  simp only [List.flatMap_append, List.append_right_eq_self, List.flatMap_eq_nil_iff]
  exact ⟨fun o ho => (given_of_thread o (hmoves o ho) who).1,
    fun o ho => (given_of_thread o (hmoves o ho) who).2.1,
    fun o ho => (given_of_thread o (hmoves o ho) who).2.2⟩

theorem closedOf_closeConnections (h : Host) (who : Handle) :
    (h.closeConnections who).closedOf who = h.closedOf who ++ (h.connectionsOf who).map (·.name) := by
  unfold closedOf
  rw [(closeConnections_eq h who).2, List.filterMap_append, List.filterMap_map]
  exact congrArg _ (congrFun List.filterMap_eq_map _)

theorem closedOf_of_not_closes {x : Change} (hx : ¬x.Closes who) :
    (x.on h).closedOf who = h.closedOf who :=
  (noted_on x h who).filterMap_eq fun _ hn =>
    Decidable.byContradiction fun hd => hx (Change.closes_of_notes hn hd)

/-- Whatever is not about one connection leaves them or closes all of them. -/
theorem sheds_connections_on {x : Change} (hopen : ∀ name, x ≠ .connect who name)
    (hclose : ∀ id, x ≠ .disconnect who id) (h : Host) :
    Sheds (·.connectionsOf who) (·.name) (·.closedOf who) h (x.on h) ∧
      ((x.on h).connectionTable who).2 = (h.connectionTable who).2 := by
  by_cases hx : x.Closes who
  · have hon : x.on h = h.closeConnections who := by
      cases x with
      | disconnect w id => exact absurd (congrArg (Change.disconnect · id) hx) (hclose id)
      | disconnectAll w =>
        cases (show w = who from hx)
        rfl
      | teardown w step =>
        cases step with
        | closeConnections =>
          cases (show w = who from hx)
          rfl
        | _ => exact hx.elim
      | _ => exact hx.elim
    obtain ⟨htable, -⟩ := closeConnections_eq h who
    rw [hon]
    exact ⟨.inr ⟨congrArg Prod.fst htable, closedOf_closeConnections h who⟩, by rw [htable]⟩
  · have hsame : (x.on h).connectionTable who = h.connectionTable who := by
      refine (differs_on x h).agrees (.connections who) fun ht => ?_
      cases x with
      | connect w name => exact hopen name (by cases ht; rfl)
      | disconnect | disconnectAll => exact hx (by rcases ht with ht | ht <;> cases ht; rfl)
      | turnOn => simp [Change.Touches, Aspect.OfSpawn] at ht
      | resolve | fire | attach | detach | spawn => exact ht
      | teardown w step =>
        cases step with
        | closeConnections => exact hx (Eq.symm ht)
        | _ => exact ht
      | _ => simp [Change.Touches] at ht
    exact ⟨.inl ⟨congrArg Prod.fst hsame, closedOf_of_not_closes hx⟩, by rw [hsame]⟩

/-- Of connections with different numbers at most one has a given number. -/
theorem filter_eq_find? {cs : List Connection} (hn : (cs.map (·.id)).Nodup) (id : Nat) :
    cs.filter (·.id == id) = (cs.find? (·.id == id)).toList := by
  induction cs with
  | nil => rfl
  | cons c rest ih =>
    rw [List.map_cons, List.nodup_cons] at hn
    by_cases hc : c.id = id
    · have hrest : rest.filter (·.id == id) = [] :=
        List.filter_eq_nil_iff.mpr fun c' hc' heq =>
          hn.1 (List.mem_map.mpr ⟨c', hc', (eq_of_beq heq).trans hc.symm⟩)
      simp [hc, hrest]
    · simp [hc, ih hn.2]

theorem books_of_sheds {o : Occurrence} (hopened : o.opened who = [])
    (hs : Sheds (·.connectionsOf who) (·.name) (·.closedOf who) o.before o.after)
    (hnext : (o.after.connectionTable who).2 = (o.before.connectionTable who).2) : o.Books who := by
  have hclosed : o.closed who =
      (o.before.connectionsOf who).filter (· ∉ o.after.connectionsOf who) := rfl
  rcases hs with ⟨hheld, hnoted⟩ | ⟨hheld, hnoted⟩
  · have hheld : o.after.connectionsOf who = o.before.connectionsOf who := hheld
    have hnone : o.closed who = [] := by simp [hclosed, hheld]
    refine ⟨?_, ?_, .inl ⟨hopened, hnext⟩⟩
    · rw [hopened, hnone, hheld, List.append_nil]
      exact .refl _
    · rw [hnone, List.map_nil, List.append_nil]
      exact hnoted
  · have hheld : o.after.connectionsOf who = [] := hheld
    have hall : o.closed who = o.before.connectionsOf who := by simp [hclosed, hheld]
    refine ⟨?_, ?_, .inl ⟨hopened, hnext⟩⟩
    · rw [hopened, hall, hheld]
    · rw [hall]
      exact hnoted

theorem books_connect (hc : (h.computer? who).isSome = true) (mover : Option Handle) (name : String) :
    Occurrence.Books who ⟨h, mover, [.connect who name], (Change.connect who name).on h⟩ := by
  have htable : ((Change.connect who name).on h).connectionTable who = _ :=
    connectionTable_openConnection hc name
  have hleft : ((Change.connect who name).on h).connectionsOf who =
      h.connectionsOf who ++ [⟨(h.connectionTable who).2, name⟩] := congrArg Prod.fst htable
  have hclosed : (h.connectionsOf who).filter
      (· ∉ ((Change.connect who name).on h).connectionsOf who) = [] := by
    rw [hleft]
    simp +contextual
  have hopened : Occurrence.opened who ⟨h, mover, [.connect who name], (Change.connect who name).on h⟩ =
      [⟨(h.connectionTable who).2, name⟩] := by
    simp [Occurrence.opened, openConnection_fst hc]
  refine ⟨?_, ?_, .inr ⟨name, hopened, by rw [htable]⟩⟩
  · show List.Perm _ (List.filter _ _ ++ _)
    rw [hopened, hclosed, hleft]
    exact .refl _
  · show _ = _ ++ (List.filter _ _).map _
    rw [hclosed, List.map_nil, List.append_nil]
    exact closedOf_of_not_closes not_false

theorem books_disconnect (hn : ((h.connectionsOf who).map (·.id)).Nodup) (mover : Option Handle)
    (id : Nat) :
    Occurrence.Books who ⟨h, mover, [.disconnect who id], (Change.disconnect who id).on h⟩ := by
  obtain ⟨htable, hjournal⟩ := closeConnection_eq h who id
  have hleft : ((Change.disconnect who id).on h).connectionsOf who =
      (h.connectionsOf who).filter (·.id != id) := congrArg Prod.fst htable
  have hclosed : (h.connectionsOf who).filter
      (· ∉ ((Change.disconnect who id).on h).connectionsOf who) =
        (h.connectionsOf who).filter (·.id == id) := by
    rw [hleft]
    refine List.filter_congr fun c hc => Bool.eq_iff_iff.mpr ?_
    simp [hc]
  have hopened : Occurrence.opened who ⟨h, mover, [.disconnect who id],
      (Change.disconnect who id).on h⟩ = [] := rfl
  have hnext := congrArg Prod.snd htable
  refine ⟨?_, ?_, .inl ⟨hopened, hnext⟩⟩
  · show List.Perm _ (List.filter _ _ ++ _)
    rw [hopened, hclosed, hleft, List.append_nil]
    exact (List.filter_append_perm (fun c : Connection => c.id == id) _).symm
  · show ((h.closeConnection who id).2.custodyOf who).filterMap Deed.closed? =
      h.closedOf who ++ (List.filter _ _).map Connection.name
    rw [hclosed, filter_eq_find? hn, hjournal, List.filterMap_append, List.filterMap_map]
    exact congrArg _ (congrFun List.filterMap_eq_map _)

/-- One occurrence: what it opens and closes, and that closings are noted. -/
theorem Occurs.connections (ho : Occurs who h mover changes h')
    (hc : (h.computer? who).isSome = true) (hn : ((h.connectionsOf who).map (·.id)).Nodup) :
    Occurrence.Books who ⟨h, mover, changes, h'⟩ := by
  rcases ho.called_or_thread with ⟨x, -, rfl, rfl⟩ | hthread
  · -- Only calls are about one connection.
    by_cases hopen : ∃ name, x = .connect who name
    · obtain ⟨name, rfl⟩ := hopen
      exact books_connect hc mover name
    by_cases hclose : ∃ id, x = .disconnect who id
    · obtain ⟨id, rfl⟩ := hclose
      exact books_disconnect hn mover id
    obtain ⟨hs, hnext⟩ := sheds_connections_on (not_exists.mp hopen) (not_exists.mp hclose) h
    refine books_of_sheds ?_ hs hnext
    cases x with
    | connect w name =>
      have hw : w ≠ who := fun heq => hopen ⟨name, by rw [heq]⟩
      simp [Occurrence.opened, hw]
    | _ => rfl
  · obtain ⟨hs, hnext⟩ := ho.comes.rel
      (R := fun h h' => Sheds (·.connectionsOf who) (·.name) (·.closedOf who) h h' ∧
        (h'.connectionTable who).2 = (h.connectionTable who).2)
      (fun hr hr' => ⟨hr.1.trans hr'.1, hr'.2.trans hr.2⟩)
      (fun hq => ⟨.inl ⟨congrArg Prod.fst (hq.agrees (.connections who) not_false),
        congrArg (List.filterMap _) (hq.agrees (.custody who) not_false)⟩,
        congrArg Prod.snd (hq.agrees (.connections who) not_false)⟩)
      (fun x hx => sheds_connections_on (by rintro name rfl; exact hthread _ hx)
        (by rintro id rfl; exact hthread _ hx))
    exact books_of_sheds (given_of_thread ⟨h, mover, changes, h'⟩ hthread who).1 hs hnext

/-! ## 3. Peripherals -/

/-- Peripherals stay known, and what a computer has lost of them was let go, and that was noted. -/
structure Releases (who : Handle) (h h' : Host) : Prop where
  known : ∀ n, (h.peripheral? n).isSome = true → (h'.peripheral? n).isSome = true
  gone : Holds who h → Holds who h' ∧ ∃ gone, (h.namesOf who).Perm (gone ++ h'.namesOf who) ∧
    h'.releasedOf who = h.releasedOf who ++ gone

theorem Releases.trans (hr : Releases who h h') (hr' : Releases who h' h'') :
    Releases who h h'' := by
  refine ⟨fun n hn => hr'.known n (hr.known n hn), fun hh => ?_⟩
  obtain ⟨hh', gone, hperm, hnoted⟩ := hr.gone hh
  obtain ⟨hh'', gone', hperm', hnoted'⟩ := hr'.gone hh'
  refine ⟨hh'', gone ++ gone', ?_, ?_⟩
  · rw [List.append_assoc]
    exact hperm.trans (hperm'.append_left gone)
  · rw [hnoted', hnoted, List.append_assoc]

/-- The sides of a computer are left alone. -/
theorem releases_of_same (hsides : h'.sidesOf who = h.sidesOf who)
    (hknown : ∀ n, (h.peripheral? n).isSome = true → (h'.peripheral? n).isSome = true)
    (hnoted : h'.releasedOf who = h.releasedOf who) : Releases who h h' := by
  refine ⟨hknown, fun hh => ⟨⟨hsides.symm ▸ hh.sides, ?_⟩, [], ?_, ?_⟩⟩
  · intro e he
    exact hknown _ (hh.named e (hsides ▸ he))
  · unfold namesOf
    rw [hsides]
    exact .refl _
  · rw [hnoted, List.append_nil]

theorem Releases.refl (who : Handle) (h : Host) : Releases who h h :=
  releases_of_same rfl (fun _ hn => hn) rfl

theorem releases_foldl {α : Type} {f : Host → α → Host} (hf : ∀ h x, Releases who h (f h x)) (h : Host)
    (xs : List α) : Releases who h (xs.foldl f h) := by
  induction xs generalizing h with
  | nil => exact .refl who h
  | cons x xs ih => exact (hf h x).trans (ih (f h x))

theorem releases_of_quiet (hq : Quiet h h') : Releases who h h' :=
  releases_of_same (hq.agrees (.sides who) not_false)
    (fun n hn => (isSome_peripheral?_of_agrees (hq.agrees .peripherals not_false) n).trans hn)
    (congrArg (List.filterMap _) (hq.agrees (.custody who) not_false))

theorem isSome_peripheral?_detach (h : Host) (w : Handle) (side n : String) :
    ((h.detach w side).2.peripheral? n).isSome = (h.peripheral? n).isSome := by
  rcases detach_cases h w side with ⟨-, heq⟩ | ⟨name, hs, -⟩
  · rw [heq]
  · exact isSome_detach hs n

theorem releases_detach (h : Host) (w : Handle) (side : String) :
    Releases who h (h.detach w side).2 := by
  have hknown (n : String) (hn : (h.peripheral? n).isSome = true) :=
    (isSome_peripheral?_detach h w side n).trans hn
  by_cases hw : w = who
  · subst hw
    have hsides := sidesOf_detach h w side w
    rw [if_pos rfl] at hsides
    refine ⟨hknown, fun hh => ⟨⟨?_, fun e he => hknown _ (hh.named e ?_)⟩, ?_⟩⟩
    · rw [hsides]
      exact hh.sides.sublist (List.filter_sublist.map _)
    · rw [hsides] at he
      exact List.mem_of_mem_filter he
    · rcases detach_cases h w side with ⟨-, heq⟩ | ⟨name, hs, -⟩
      · rw [heq]
        exact ⟨[], .refl _, (List.append_nil _).symm⟩
      · refine ⟨[name], ?_, releasedOf_detach hs (hh.named (side, name) (mem_of_lookup hs))⟩
        unfold namesOf
        rw [hsides]
        exact (perm_filter_ne hh.sides hs).map (·.2)
  · have hsides := sidesOf_detach h w side who
    rw [if_neg (Ne.symm hw)] at hsides
    exact releases_of_same hsides hknown
      ((noted_detach h w side).filterMap_eq fun d hd => absurd hd.1 hw)

theorem releases_releasePeripherals (h : Host) (w : Handle) :
    Releases who h (h.releasePeripherals w) := by
  have hsides := sidesOf_releasePeripherals h w who
  have hknown (n : String) (hn : (h.peripheral? n).isSome = true) :=
    (isSome_releasePeripherals h w n).trans hn
  by_cases hw : w = who
  · subst hw
    rw [if_pos rfl] at hsides
    refine ⟨hknown, fun hh => ⟨⟨?_, ?_⟩, h.namesOf w, ?_, releasedOf_releasePeripherals hh.named⟩⟩
    · simp [hsides]
    · simp [hsides]
    · simp [namesOf, hsides]
  · rw [if_neg (Ne.symm hw)] at hsides
    exact releases_of_same hsides hknown
      ((noted_releasePeripherals h w).filterMap_eq fun d hd => absurd hd.1 hw)

theorem releases_detachReferences (h : Host) (w : Handle) :
    Releases who h (h.detachReferences w) := by
  have hstart : Releases who h { h with registry := (h.registry.takeReferences w).2 } :=
    releases_of_same rfl (fun _ hn => hn) rfl
  refine hstart.trans (releases_foldl (fun h r => ?_) _ _)
  split
  · unfold detachReference
    dsimp only
    split
    · exact releases_detach h r.referencer r.side
    · exact .refl who h
  · exact .refl who h

theorem isSome_peripheral?_turnOn (h : Host) (link n : String) :
    ((h.turnOn link).peripheral? n).isSome = (h.peripheral? n).isSome := by
  have hspawn (l : Link) := isSome_peripheral?_of_agrees
    ((differs_spawn h l.target.id false).agrees .peripherals not_false) n
  obtain heq | ⟨l, -, heq | ⟨v, -, heq⟩⟩ := turnOn_cases h link <;> rw [heq]
  · exact hspawn l
  · rw [retarget_eq]
    exact (isSome_setPeripheral _ link _ n).trans (hspawn l)

theorem releasedOf_of_not_letsGo {x : Change} (hx : ¬x.LetsGo who) :
    (x.on h).releasedOf who = h.releasedOf who :=
  (noted_on x h who).filterMap_eq fun _ hn =>
    Decidable.byContradiction fun hd => hx (Change.letsGo_of_notes hn hd)

/-- Whatever attaches nothing to a computer. -/
theorem releases_on {x : Change} (hx : ∀ side name, x ≠ .attach who side name) (h : Host) :
    Releases who h (x.on h) := by
  have hd := differs_on x h
  have hsides (ht : ¬x.Touches (.sides who)) := hd.agrees (.sides who) ht
  have hknown (ht : ¬x.Touches .peripherals) (n : String) (hn : (h.peripheral? n).isSome = true) :=
    (isSome_peripheral?_of_agrees (hd.agrees .peripherals ht) n).trans hn
  cases x with
  | detach w side => exact releases_detach h w side
  | attach w side name =>
    have hw : w ≠ who := fun heq => hx side name (by rw [heq])
    refine releases_of_same (hsides (Ne.symm hw)) (fun n hn => ?_)
      (releasedOf_of_not_letsGo not_false)
    rcases attach_cases h w side name with heq | ⟨-, -, -, heq⟩
    · rw [Change.on, heq]
      exact hn
    · exact (isSome_attach (by rw [heq]) n).trans hn
  | supply name p =>
    refine releases_of_same (hsides (by simp [Change.Touches])) (fun n hn => ?_)
      (releasedOf_of_not_letsGo not_false)
    show ((h.addPeripheral name p).peripheral? n).isSome = true
    rw [peripheral?_addPeripheral, Option.isSome_or, hn, Bool.true_or]
  | turnOn link =>
    exact releases_of_same (hsides (by simp [Change.Touches, Aspect.OfSpawn]))
      (fun n hn => (isSome_peripheral?_turnOn h link n).trans hn)
      (releasedOf_of_not_letsGo not_false)
  | teardown w step =>
    cases step with
    | releasePeripherals => exact releases_releasePeripherals h w
    | detachReferences => exact releases_detachReferences h w
    | _ =>
      exact releases_of_same (hsides not_false) (hknown not_false)
        (releasedOf_of_not_letsGo not_false)
  | resolve | fire | spawn =>
    exact releases_of_same (hsides not_false) (hknown not_false)
      (releasedOf_of_not_letsGo not_false)
  | _ =>
    exact releases_of_same (hsides (by simp [Change.Touches])) (hknown (by simp [Change.Touches]))
      (releasedOf_of_not_letsGo not_false)

theorem attach_self (ha : (h.attach who side name).1 = true) (hh : Holds who h) :
    Holds who (h.attach who side name).2 ∧
      (h.attach who side name).2.namesOf who = h.namesOf who ++ [name] := by
  obtain ⟨-, hfree, ⟨p, hp⟩, -⟩ := attach_ok ha
  have hsides := sidesOf_attach ha who
  rw [if_pos rfl] at hsides
  refine ⟨⟨?_, fun e he => ?_⟩, ?_⟩
  · rw [hsides, List.map_append, List.map_singleton]
    refine List.nodup_append.mpr ⟨hh.sides, List.nodup_singleton _, fun s hs t ht => ?_⟩
    rw [List.mem_singleton.mp ht]
    rintro rfl
    obtain ⟨e, he, heq⟩ := List.mem_map.mp hs
    exact (List.lookup_eq_none_iff.mp hfree e he |> bne_iff_ne.mp) heq.symm
  · rw [isSome_attach ha]
    rw [hsides] at he
    rcases List.mem_append.mp he with he | he
    · exact hh.named e he
    · rw [List.mem_singleton.mp he, hp]
      rfl
  · unfold namesOf
    rw [hsides, List.map_append]
    rfl

/-- One occurrence, for peripherals. -/
theorem Occurs.peripherals (ho : Occurs who h mover changes h') (hh : Holds who h) :
    Holds who h' ∧ ∃ gone, (h.namesOf who ++ Occurrence.attached who ⟨h, mover, changes, h'⟩).Perm
      (gone ++ h'.namesOf who) ∧ h'.releasedOf who = h.releasedOf who ++ gone := by
  have hreleases (hr : Releases who h h')
      (hattached : Occurrence.attached who ⟨h, mover, changes, h'⟩ = []) :
      Holds who h' ∧ ∃ gone, (h.namesOf who ++ Occurrence.attached who ⟨h, mover, changes, h'⟩).Perm
        (gone ++ h'.namesOf who) ∧ h'.releasedOf who = h.releasedOf who ++ gone := by
    rw [hattached, List.append_nil]
    exact hr.gone hh
  rcases ho.called_or_thread with ⟨x, -, rfl, rfl⟩ | hthread
  · by_cases hx : ∃ side name, x = .attach who side name
    · obtain ⟨side, name, rfl⟩ := hx
      cases ha : (h.attach who side name).1 with
      | true =>
        obtain ⟨hh', hnames⟩ := attach_self ha hh
        refine ⟨hh', [], ?_, ?_⟩
        · simp [Occurrence.attached, ha, Change.on, hnames]
        · rw [List.append_nil]
          exact releasedOf_of_not_letsGo not_false
      | false =>
        have hsame : (Change.attach who side name).on h = h := by
          rcases attach_cases h who side name with heq | ⟨-, -, -, heq⟩
          · rw [Change.on, heq]
          · rw [heq] at ha
            cases ha
        refine hreleases ?_ (by simp [Occurrence.attached, ha])
        rw [hsame]
        exact .refl who h
    · refine hreleases (releases_on (fun side name heq => hx ⟨side, name, heq⟩) h) ?_
      cases x with
      | attach w side name =>
        have hw : w ≠ who := fun heq => hx ⟨side, name, by rw [heq]⟩
        simp [Occurrence.attached, hw]
      | _ => rfl
  · refine hreleases ?_ (given_of_thread ⟨h, mover, changes, h'⟩ hthread who).2.1
    exact ho.comes.rel .trans releases_of_quiet fun x hx =>
      releases_on (by rintro side name rfl; exact hthread _ hx)

/-! ## 4. Finalizers -/

theorem finalizedOf_of_ne {x : Change} (hx : x ≠ .teardown who .runFinalizers) :
    (x.on h).finalizedOf who = h.finalizedOf who :=
  (noted_on x h who).filterMap_eq fun _ hn =>
    Decidable.byContradiction fun hd => hx (Change.finalizes_of_notes hn hd)

/-- Whatever adds no finalizer leaves them or runs all of them, in order. -/
theorem sheds_finalizers_on {x : Change} (hx : ∀ name, x ≠ .addFinalizer who name) (h : Host) :
    Sheds (·.finalizersOf who) id (·.finalizedOf who) h (x.on h) := by
  by_cases hrun : x = .teardown who .runFinalizers
  · subst hrun
    obtain ⟨hleft, hjournal, -⟩ := runFinalizers_eq h who
    refine .inr ⟨hleft, ?_⟩
    show ((h.runFinalizers who).custodyOf who).filterMap Deed.finalized? = _
    rw [hjournal, List.filterMap_append, List.filterMap_map]
    exact congrArg _ (congrFun List.filterMap_eq_map _)
  · refine .inl ⟨(differs_on x h).agrees (.finalizers who) fun ht => ?_, finalizedOf_of_ne hrun⟩
    cases x with
    | addFinalizer w name => exact hx name (by cases ht; rfl)
    | turnOn => simp [Change.Touches, Aspect.OfSpawn] at ht
    | resolve | fire | attach | detach | spawn => exact ht
    | teardown w step =>
      cases step with
      | runFinalizers => exact hrun (by cases (show who = w from ht); rfl)
      | _ => exact ht
    | _ => simp [Change.Touches] at ht

/-- One occurrence, for finalizers. -/
theorem Occurs.finalizers (ho : Occurs who h mover changes h')
    (hc : (h.computer? who).isSome = true) :
    ∃ gone, h.finalizersOf who ++ Occurrence.added who ⟨h, mover, changes, h'⟩ =
      gone ++ h'.finalizersOf who ∧ h'.finalizedOf who = h.finalizedOf who ++ gone := by
  have hsheds (hs : Sheds (·.finalizersOf who) id (·.finalizedOf who) h h')
      (hadded : Occurrence.added who ⟨h, mover, changes, h'⟩ = []) :
      ∃ gone, h.finalizersOf who ++ Occurrence.added who ⟨h, mover, changes, h'⟩ =
        gone ++ h'.finalizersOf who ∧ h'.finalizedOf who = h.finalizedOf who ++ gone := by
    rw [hadded, List.append_nil]
    rcases hs with ⟨hheld, hnoted⟩ | ⟨hheld, hnoted⟩
    · exact ⟨[], hheld.symm, hnoted.trans (List.append_nil _).symm⟩
    · have hheld : h'.finalizersOf who = [] := hheld
      exact ⟨h.finalizersOf who, by rw [hheld, List.append_nil], by simpa using hnoted⟩
  rcases ho.called_or_thread with ⟨x, -, rfl, rfl⟩ | hthread
  · by_cases hx : ∃ name, x = .addFinalizer who name
    · obtain ⟨name, rfl⟩ := hx
      refine ⟨[], ?_, ?_⟩
      · simp [Occurrence.added, Change.on, finalizersOf_addFinalizer hc]
      · rw [List.append_nil]
        exact finalizedOf_of_ne (by simp)
    · refine hsheds (sheds_finalizers_on (not_exists.mp hx) h) ?_
      cases x with
      | addFinalizer w name =>
        have hw : w ≠ who := fun heq => hx ⟨name, by rw [heq]⟩
        simp [Occurrence.added, hw]
      | _ => rfl
  · refine hsheds ?_ (given_of_thread ⟨h, mover, changes, h'⟩ hthread who).2.2
    exact ho.comes.rel .trans
      (fun hq => .inl ⟨hq.agrees (.finalizers who) not_false,
        congrArg (List.filterMap _) (hq.agrees (.custody who) not_false)⟩)
      fun x hx => sheds_finalizers_on (by rintro name rfl; exact hthread _ hx)

/-! ## 5. The balance -/

theorem ledger_of_empty (hc : (h.computer? who).isSome = true) (hopen : h.connectionsOf who = [])
    (hsides : h.sidesOf who = []) (hfinalizers : h.finalizersOf who = [])
    (hnoted : h.closedOf who = [] ∧ h.releasedOf who = [] ∧ h.finalizedOf who = []) :
    Ledger who [] h where
  known := hc
  drawn c hm := absurd hm List.not_mem_nil
  distinct := List.nodup_nil
  connections := by rw [hopen]; exact .refl _
  closings := hnoted.1
  holds := ⟨by simp [hsides], by simp [hsides]⟩
  peripherals := by unfold namesOf; rw [hnoted.2.1, hsides]; exact .refl _
  finalizers := by rw [hnoted.2.2, hfinalizers]; rfl

theorem Occurs.ledger {trace : List Occurrence} (ho : Occurs who h mover changes h')
    (hl : Ledger who trace h) : Ledger who (trace ++ [⟨h, mover, changes, h'⟩]) h' := by
  have hids : ((h.connectionsOf who).map (·.id)).Nodup := by
    have hperm := hl.connections.map (·.id)
    rw [List.map_append] at hperm
    exact ((hperm.nodup_iff.mp hl.distinct)).of_append_right
  have hbooks := ho.connections hl.known hids
  obtain ⟨hholds, gone, hperipherals, hreleased⟩ := ho.peripherals hl.holds
  obtain ⟨run, hfinalizers, hfinalized⟩ := ho.finalizers hl.known
  have hsnoc {α : Type} (f : Occurrence → List α) (o : Occurrence) :
      (trace ++ [o]).flatMap f = trace.flatMap f ++ f o := by simp
  have hopened : openedOf who (trace ++ [⟨h, mover, changes, h'⟩]) = _ := hsnoc _ _
  have htaken : takenOf who (trace ++ [⟨h, mover, changes, h'⟩]) = _ := hsnoc _ _
  have hattached : attachedOf who (trace ++ [⟨h, mover, changes, h'⟩]) = _ := hsnoc _ _
  have hadded : addedOf who (trace ++ [⟨h, mover, changes, h'⟩]) = _ := hsnoc _ _
  constructor
  case known => exact ho.comes.known hl.known
  case drawn =>
    intro c hm
    rw [hopened] at hm
    rcases hbooks.numbers with ⟨hnone, hnext⟩ | ⟨name, hone, hnext⟩
    · rw [hnone, List.append_nil] at hm
      exact hnext ▸ hl.drawn c hm
    · rw [hone] at hm
      rw [hnext]
      rcases List.mem_append.mp hm with hm | hm
      · exact Nat.lt_succ_of_lt (hl.drawn c hm)
      · rw [List.mem_singleton.mp hm]
        exact Nat.lt_succ_self _
  case distinct =>
    rw [hopened]
    rcases hbooks.numbers with ⟨hnone, -⟩ | ⟨name, hone, -⟩
    · rw [hnone, List.append_nil]
      exact hl.distinct
    · rw [hone, List.map_append, List.map_singleton]
      refine List.nodup_append.mpr ⟨hl.distinct, List.nodup_singleton _, fun n hn m hm => ?_⟩
      -- The numbers that were given before are smaller than the next one.
      obtain ⟨c, hc, rfl⟩ := List.mem_map.mp hn
      rw [List.mem_singleton.mp hm]
      exact Nat.ne_of_lt (hl.drawn c hc)
  case connections =>
    rw [hopened, htaken]
    exact perm_balance hl.connections hbooks.balance
  case closings =>
    rw [htaken, List.map_append, hbooks.noted, hl.closings]
    rfl
  case holds => exact hholds
  case peripherals =>
    rw [hattached, hreleased]
    exact perm_balance hl.peripherals hperipherals
  case finalizers =>
    rw [hadded, hfinalized, List.append_assoc, ← hfinalizers, ← List.append_assoc, ← hl.finalizers]
    rfl

/-- The books balance along any course. -/
theorem Course.ledger {h₀ : Host} {past trace : List Occurrence} (hc : Course who h₀ trace h)
    (hl : Ledger who past h₀) : Ledger who (past ++ trace) h := by
  induction hc with
  | refl => rwa [List.append_nil]
  | snoc _ ho ih =>
    rw [← List.append_assoc]
    exact ho.ledger ih

end

end ComputerHost.Host

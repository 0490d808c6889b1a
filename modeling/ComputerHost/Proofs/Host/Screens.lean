import ComputerHost.Proofs.Host.Construction
import ComputerHost.Proofs.Host.Scope

/-!
# Terminals

No two computers have the same terminal, since every construction makes its own. So what a terminal shows
is up to the thread of its computer; others can only put messages over it. `Apart` is the invariant, and
`face?` what only the thread changes.

Results:
1. `extends_spawn`: what a construction does to terminals.
2. `Works.apart`, `Works.face?`: what everybody respects.
-/

namespace ComputerHost

/-- A terminal without the messages over it. -/
def Terminal.face (t : Terminal) : Terminal := { t with messages := [] }

namespace Host

/-- The terminals of the computers are there, and none is shared. -/
structure Apart (h : Host) : Prop where
  bound : ∀ {w n}, h.terminalNumber? w = some n → n < h.terminals.length
  apart : ∀ {w v n}, h.terminalNumber? w = some n → h.terminalNumber? v = some n → w = v

/-- The terminal of a computer without the messages over it, and its number. -/
def face? (h : Host) (who : Handle) : Option (Nat × Terminal) :=
  (h.terminalOf? who).map fun (n, t) => (n, t.face)

/-- The terminals that there are stay as they are. -/
structure Extends (h h' : Host) : Prop where
  length : h.terminals.length ≤ h'.terminals.length
  same : ∀ m < h.terminals.length, h'.terminals[m]? = h.terminals[m]?

section
variable {s : Scope} {who w : Handle} {h h' h'' : Host}

/-! ## 1. Constructions -/

theorem getElem?_onTerminal (h : Host) (n m : Nat) (f : Terminal → Terminal) :
    (h.onTerminal n f).terminals[m]? =
      if n = m then h.terminals[m]?.map fun (id, t) => (id, f t) else h.terminals[m]? := by
  unfold onTerminal
  rw [List.getElem?_modify]
  split <;> simp

theorem Furnishes.extends {terminal : Option Nat} (hf : Furnishes h h' terminal) : Extends h h' :=
  ⟨hf.length.1, fun _ => hf.getElem?⟩

/-- A construction leaves the terminals that there are, and a computer that it makes has none of them. -/
theorem extends_spawn (h : Host) (id : UInt32) (isDebugger : Bool) :
    Extends h (h.spawn id isDebugger).2 ∧
      ((h.spawn id isDebugger).2.computers = h.computers ∨
        ∃ c, (h.spawn id isDebugger).2.computers = h.computers ++ [c] ∧
          ∀ n, c.terminal = some n → n = h.terminals.length ∧
            n < (h.spawn id isDebugger).2.terminals.length) := by
  rcases hs : h.spawn id isDebugger with ⟨e | w, h'⟩
  · have ha := (aborts_of_spawn_error (congrArg Prod.fst hs)).1
    rw [hs] at ha
    refine ⟨ha.furnishes.extends, .inl ?_⟩
    rw [ha.rest]
  · obtain ⟨terminal, hj⟩ := joins_of_spawn_ok hs
    obtain ⟨c, hcomputers, -, rfl⟩ := hj.computers
    exact ⟨hj.furnishes.extends, .inr ⟨c, hcomputers, hj.furnishes.length.2⟩⟩

/-! ## 2. What everybody respects -/

theorem terminalNumber?_modify {f : Computer → Computer}
    (hf : ∀ c, (f c).handle = c.handle ∧ (f c).terminal = c.terminal) (h : Host) (w who : Handle) :
    (h.modify w f).terminalNumber? who = h.terminalNumber? who := by
  unfold terminalNumber?
  rw [computer?_modify h w f fun c => (hf c).1]
  cases h.computer? who with
  | none => rfl
  | some c =>
    simp only [Option.map_some, Option.bind_some]
    split
    · exact (hf c).2
    · rfl

/-- A spawn makes one computer at most, with a terminal that was not there before. -/
theorem computer?_spawn (h : Host) (id : UInt32) (isDebugger : Bool) :
    ∃ made : Option Computer,
      (∀ who, (h.spawn id isDebugger).2.computer? who =
        (h.computer? who).or (made.filter (·.handle == who))) ∧
      ∀ c ∈ made, ∀ n, c.terminal = some n → n = h.terminals.length ∧
        n < (h.spawn id isDebugger).2.terminals.length := by
  have hspawn := (extends_spawn h id isDebugger).2
  generalize (h.spawn id isDebugger).2 = h' at hspawn ⊢
  unfold computer?
  rcases hspawn with heq | ⟨c, heq, hnew⟩
  · exact ⟨none, fun who => by simp [heq], fun c hc => absurd hc (Option.not_mem_none c)⟩
  · refine ⟨some c, fun who => ?_, fun c' hc' => ?_⟩
    · rw [heq, List.find?_append, List.find?_singleton, Option.filter_some]
    · cases hc'
      exact hnew

theorem log_eq (h : Host) (id : UInt32) (lines : List String) :
    h.log id lines = { h with transcripts := (h.log id lines).transcripts } := by
  unfold log
  split
  · rfl
  · split <;> rfl

/-- Terminals stay apart. -/
theorem Touches.apart (ht : Touches s h h') (ha : Apart h) : Apart h' := by
  have hsame (hn : ∀ w, h'.terminalNumber? w = h.terminalNumber? w)
      (hlength : h'.terminals.length = h.terminals.length) : Apart h' := by
    refine ⟨fun hw => ?_, fun hw hv => ha.apart ((hn _).symm.trans hw) ((hn _).symm.trans hv)⟩
    rw [hlength]
    exact ha.bound ((hn _).symm.trans hw)
  cases ht with
  | computer _ hf => exact hsame (terminalNumber?_modify hf h _) rfl
  | terminal | message => exact hsame (fun _ => rfl) (by simp [onTerminal])
  | transcript =>
    rw [log_eq] at hsame ⊢
    exact hsame (fun _ => rfl) rfl
  | other _ _ hc _ hterminals =>
    refine hsame (fun _ => ?_) (by rw [hterminals])
    unfold terminalNumber? computer?
    rw [hc]
  | @spawns id isDebugger =>
    obtain ⟨made, hcomputers, hmade⟩ := computer?_spawn h id isDebugger
    have hlength := (extends_spawn h id isDebugger).1.length
    have hcases {w : Handle} {n : Nat} (hw : (h.spawn id isDebugger).2.terminalNumber? w = some n) :
        h.terminalNumber? w = some n ∨ ∃ c ∈ made, c.handle = w ∧ c.terminal = some n := by
      obtain ⟨c, hc, hn⟩ := Option.bind_eq_some_iff.mp hw
      rw [hcomputers, Option.or_eq_some_iff, Option.filter_eq_some_iff] at hc
      rcases hc with hc | ⟨-, hc, hw⟩
      · left
        rw [terminalNumber?, hc, Option.bind_some, hn]
      · exact .inr ⟨c, hc, eq_of_beq hw, hn⟩
    refine ⟨fun hw => ?_, fun hw hv => ?_⟩
    · rcases hcases hw with hw | ⟨c, hc, -, hn⟩
      · exact Nat.lt_of_lt_of_le (ha.bound hw) hlength
      · exact (hmade c hc _ hn).2
    · rcases hcases hw with hw | ⟨c, hc, rfl, hn⟩ <;> rcases hcases hv with hv | ⟨c', hc', rfl, hn'⟩
      · exact ha.apart hw hv
      · have := ha.bound hw
        have := (hmade c' hc' _ hn').1
        omega
      · have := ha.bound hv
        have := (hmade c hc _ hn).1
        omega
      · exact congrArg Computer.handle (Option.mem_unique hc hc')
  | _ => exact hsame (fun _ => rfl) rfl

theorem Works.apart (hw : Works s h h') (ha : Apart h) : Apart h' := by
  induction hw with
  | refl => exact ha
  | tail _ ht ih => exact ht.apart ih

theorem face?_eq (h : Host) (who : Handle) :
    h.face? who = (h.terminalNumber? who).bind fun n => (h.terminal? n).map fun t => (n, t.face) := by
  unfold face? terminalOf? terminalNumber?
  cases h.computer? who with
  | none => rfl
  | some c =>
    cases hn : c.terminal with
    | none => simp [hn]
    | some n => cases ht : h.terminal? n <;> simp [hn, ht]

/-- A terminal that is changed in a way that nobody sees, or that is not the one of `who`. -/
theorem face?_onTerminal {n : Nat} {f : Terminal → Terminal}
    (hn : h.terminalNumber? who ≠ some n ∨ ∀ t, (f t).face = t.face) :
    (h.onTerminal n f).face? who = h.face? who := by
  rw [face?_eq, face?_eq]
  refine Option.bind_congr fun m hm => ?_
  unfold terminal?
  rw [getElem?_onTerminal]
  split
  · next heq =>
    obtain rfl : n = m := heq
    have hface := hn.resolve_left fun hne => hne hm
    cases h.terminals[n]? <;> simp [hface]
  · rfl

/-- A computer keeps the terminal that it was made with. -/
theorem Touches.terminalNumber? (ht : Touches s h h') (hc : (h.computer? who).isSome = true) :
    h'.terminalNumber? who = h.terminalNumber? who := by
  cases ht with
  | computer _ hf => exact terminalNumber?_modify hf h _ who
  | transcript =>
    rw [log_eq]
    rfl
  | other _ _ hcomputers =>
    unfold Host.terminalNumber? Host.computer?
    rw [hcomputers]
  | @spawns id isDebugger =>
    obtain ⟨made, hcomputers, -⟩ := computer?_spawn h id isDebugger
    obtain ⟨c, hc⟩ := Option.isSome_iff_exists.mp hc
    rw [Host.terminalNumber?, hcomputers, hc, Option.some_or, Host.terminalNumber?, hc]
  | _ => rfl

/-- What nobody else changes of a terminal, and its own computer only if it uses it. -/
theorem Touches.face? (ht : Touches s h h') (ha : Apart h) (hc : (h.computer? who).isSome = true)
    (hno : s.who ≠ some who ∨ ¬s.shows) : h'.face? who = h.face? who := by
  have hnumber := ht.terminalNumber? hc
  have hsame (ht : h'.terminals = h.terminals) : h'.face? who = h.face? who := by
    rw [face?_eq, face?_eq, hnumber]
    unfold terminal?
    rw [ht]
  cases ht with
  | @terminal w n f hshows hw hn =>
    refine face?_onTerminal (.inl fun hwho => ?_)
    rw [ha.apart hn hwho] at hw
    exact hno.elim (fun hne => hne hw) fun hno => hno hshows
  | message => exact face?_onTerminal (.inr fun _ => rfl)
  | transcript =>
    rw [log_eq] at hsame ⊢
    exact hsame rfl
  | other _ _ _ _ hterminals => exact hsame hterminals
  | @spawns id isDebugger =>
    rw [face?_eq, face?_eq, hnumber]
    refine Option.bind_congr fun n hn => ?_
    unfold terminal?
    rw [(extends_spawn h id isDebugger).1.same n (ha.bound hn)]
  | _ => exact hsame rfl

/-- No computer gets lost. -/
theorem Touches.isSome (ht : Touches s h h') (hc : (h.computer? who).isSome = true) :
    (h'.computer? who).isSome = true := by
  cases ht with
  | computer _ hf =>
    rw [computer?_modify h _ _ fun c => (hf c).1]
    simpa using hc
  | transcript =>
    rw [log_eq]
    exact hc
  | other _ _ hcomputers => rwa [computer?, hcomputers]
  | @spawns id isDebugger =>
    obtain ⟨made, hcomputers, -⟩ := computer?_spawn h id isDebugger
    rw [hcomputers]
    simp [hc]
  | _ => exact hc

theorem Works.isSome (hw : Works s h h') (hc : (h.computer? who).isSome = true) :
    (h'.computer? who).isSome = true := by
  induction hw with
  | refl => exact hc
  | tail _ ht ih => exact ht.isSome ih

theorem Works.terminalNumber? (hw : Works s h h') (hc : (h.computer? who).isSome = true) :
    h'.terminalNumber? who = h.terminalNumber? who := by
  induction hw with
  | refl => rfl
  | tail hw ht ih => exact (ht.terminalNumber? (Works.isSome hw hc)).trans ih

/-- Where terminals are apart, a computer without a number has no terminal, and the other way round. -/
theorem Apart.terminalOf?_eq_none (ha : Apart h) :
    h.terminalOf? who = none ↔ h.terminalNumber? who = none := by
  constructor
  · intro hnone
    cases hn : h.terminalNumber? who with
    | none => rfl
    | some n =>
      have hlt : n < h.terminals.length := ha.bound hn
      have hsome : h.terminal? n = some h.terminals[n].2 := by
        rw [terminal?, List.getElem?_eq_getElem hlt]
        rfl
      cases hnone.symm.trans (terminalOf?_eq_some.mpr ⟨hn, hsome⟩)
  · intro hnone
    refine Option.eq_none_iff_forall_ne_some.mpr fun p hp => ?_
    cases hnone.symm.trans (terminalOf?_eq_some.mp hp).1

theorem Works.face? (hw : Works s h h') (ha : Apart h) (hc : (h.computer? who).isSome = true)
    (hno : s.who ≠ some who ∨ ¬s.shows) : h'.face? who = h.face? who := by
  have hboth : h'.face? who = h.face? who ∧ Apart h' ∧ (h'.computer? who).isSome = true := by
    induction hw with
    | refl => exact ⟨rfl, ha, hc⟩
    | tail _ ht ih =>
      obtain ⟨hface, ha, hc⟩ := ih
      exact ⟨(ht.face? ha hc hno).trans hface, ht.apart ha, ht.isSome hc⟩
  exact hboth.1

end

end Host

end ComputerHost

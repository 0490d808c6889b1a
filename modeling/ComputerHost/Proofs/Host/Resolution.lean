import ComputerHost.Proofs.Host.Frame
import ComputerHost.Proofs.Since

/-!
# Whom a handle names

A computer is registered, marked as being torn down, taken out and released by different calls of the
registry, and in any order; the mark of a handle goes again while others may still hold the handle. What a
handle resolves to, and what becomes of a timer, can all the same be read off the calls that were made: each
answer depends on which of two kinds of call came last (`Since`).

Results:
1. `told_call`, `told_of_calls`: what the registry knows, call by call.
2. `computers_broadcast`: the queues that an event is put into.
3. `handles_name_instances`: every answer of the registry, after any calls.
-/

namespace ComputerHost

/-! ## 1. Calls of a registry -/

/-- A call of the registry of a host. -/
inductive RegistryCall where
  | insert (who : Handle)
  | retire (who : Handle)
  | release (who : Handle)
  | markFreed (who : Handle)
  | invalidateTimers (ids : List TimerId)
  | resolveTimer (id : TimerId) (owner : Handle)
  | broadcast (e : Event)
  | resolve (who : Handle)
  | find (id : UInt32)
deriving DecidableEq

namespace RegistryCall

/-- What a call leaves behind. -/
def on : RegistryCall → Host → Host
  | insert who, h => { h with registry := h.registry.insert who }
  | retire who, h => { h with registry := (h.registry.retire who).2 }
  | release who, h => { h with registry := h.registry.release who }
  | markFreed who, h => { h with registry := h.registry.markFreed who }
  | invalidateTimers ids, h => { h with registry := h.registry.invalidateTimers ids }
  | resolveTimer id owner, h => { h with registry := (h.registry.resolveTimer id owner).2 }
  | broadcast e, h => h.broadcast e
  | resolve _, h | find _, h => h

/-- What is registered is a computer. -/
def Fits (h : Host) : RegistryCall → Prop
  | insert who => (h.computer? who).isSome = true
  | _ => True

def inserted? : RegistryCall → Option Handle
  | insert who => some who
  | _ => none

/-- The calls that mark a computer as being torn down. -/
def Marks (who : Handle) (call : RegistryCall) : Prop := call = retire who ∨ call = markFreed who

/-- The calls that take the mark away again. -/
def Clears (who : Handle) (call : RegistryCall) : Prop := call = insert who ∨ call = release who

def Invalidates (id : TimerId) : RegistryCall → Prop
  | invalidateTimers ids => id ∈ ids
  | _ => False

/-- The calls that ask where a timer goes. -/
def Consumes (id : TimerId) : RegistryCall → Prop
  | resolveTimer i _ => i = id
  | _ => False

/-- The handles that were inserted, in order. -/
def insertions (calls : List RegistryCall) : List Handle := calls.filterMap inserted?

/-- Inserted, and not retired since. -/
def Stands (who : Handle) (calls : List RegistryCall) : Prop :=
  Since (· = insert who) (· = retire who) calls

/-- The latest call that marks the computer is later than the latest one that clears it. -/
def Marked (who : Handle) (calls : List RegistryCall) : Prop := Since (Marks who) (Clears who) calls

/-- Invalidated, and not asked for since. -/
def Invalid (id : TimerId) (calls : List RegistryCall) : Prop :=
  Since (Invalidates id) (Consumes id) calls

end RegistryCall

namespace Host

open RegistryCall

/-- Calls of the registry one after the other, and in between anything that leaves it alone and lets no
computer vanish. -/
inductive Calls (h₀ : Host) : List RegistryCall → Host → Prop
  | refl : Calls h₀ [] h₀
  | call {calls : List RegistryCall} {h : Host} (call : RegistryCall) :
      Calls h₀ calls h → call.Fits h → Calls h₀ (calls ++ [call]) (call.on h)
  | meanwhile {calls : List RegistryCall} {h h' : Host} :
      Calls h₀ calls h → h'.registry = h.registry →
      (∀ who, (h.computer? who).isSome = true → (h'.computer? who).isSome = true) → Calls h₀ calls h'

/-- The registry after these calls. -/
structure Told (calls : List RegistryCall) (h : Host) : Prop where
  known : ∀ who ∈ h.registry.registered, (h.computer? who).isSome = true
  sublist : h.registry.registered.Sublist (insertions calls)
  registered : ∀ who, who ∈ h.registry.registered ↔ Stands who calls
  freed : ∀ who, who ∈ h.registry.freed ↔ Marked who calls
  freedTimers : ∀ id, id ∈ h.registry.freedTimers ↔ Invalid id calls

section
variable {h₀ h h' : Host} {calls : List RegistryCall} {call : RegistryCall} {who : Handle} {id : TimerId}

theorem mem_insertions : who ∈ insertions calls ↔ .insert who ∈ calls := by
  unfold insertions
  rw [List.mem_filterMap]
  constructor
  · rintro ⟨call, hmem, hinserted⟩
    cases call with
    | insert w =>
      cases hinserted
      exact hmem
    | _ => cases hinserted
  · exact fun hmem => ⟨_, hmem, rfl⟩

theorem insertions_concat (calls : List RegistryCall) (call : RegistryCall) :
    insertions (calls ++ [call]) = insertions calls ++ call.inserted?.toList := by
  unfold insertions
  rw [List.filterMap_append]
  cases call <;> rfl

theorem isSome_broadcast (h : Host) (e : Event) (who : Handle)
    (hsome : (h.computer? who).isSome = true) : ((h.broadcast e).computer? who).isSome = true := by
  obtain ⟨c, hc⟩ := Option.isSome_iff_exists.mp hsome
  obtain ⟨c', hc', -⟩ := (keeps_broadcast h e : Keeps who h _).computer c hc
  rw [hc']
  rfl

theorem registry_broadcast (h : Host) (e : Event) : (h.broadcast e).registry = h.registry := by
  unfold broadcast
  generalize h.registry.registered = all
  induction all generalizing h with
  | nil => rfl
  | cons who rest ih => exact ih (h.queueEvent who e)

theorem freedTimers_resolveTimer (r : Registry) (id : TimerId) (owner : Handle) (i : TimerId) :
    i ∈ (r.resolveTimer id owner).2.freedTimers ↔ i ≠ id ∧ i ∈ r.freedTimers := by
  unfold Registry.resolveTimer
  dsimp only
  split
  · exact Tombstones.mem_forget
  · next hmarked =>
    have hnot : id ∉ r.freedTimers := fun hmem => hmarked ((Tombstones.forget_fst ..).mpr hmem)
    exact ⟨fun hi => ⟨fun heq => hnot (heq ▸ hi), hi⟩, And.right⟩

/-- Asking where a timer goes changes nothing but the marks of timers. -/
theorem resolveTimer_eq (r : Registry) (id : TimerId) (owner : Handle) :
    (r.resolveTimer id owner).2 = { r with freedTimers := (r.resolveTimer id owner).2.freedTimers } := by
  unfold Registry.resolveTimer
  dsimp only
  split <;> rfl

theorem registered_resolveTimer (r : Registry) (id : TimerId) (owner : Handle) :
    (r.resolveTimer id owner).2.registered = r.registered := by
  rw [resolveTimer_eq]

theorem freed_resolveTimer (r : Registry) (id : TimerId) (owner : Handle) :
    (r.resolveTimer id owner).2.freed = r.freed := by
  rw [resolveTimer_eq]

theorem resolveTimer_fst (r : Registry) (id : TimerId) (owner : Handle) :
    (r.resolveTimer id owner).1 = if id ∈ r.freedTimers then none else r.resolve? owner := by
  unfold Registry.resolveTimer
  dsimp only
  split
  · next hmarked => rw [if_pos ((Tombstones.forget_fst ..).mp hmarked)]
  · next hmarked => rw [if_neg fun hmem => hmarked ((Tombstones.forget_fst ..).mpr hmem)]

theorem told_empty (hempty : h.registry = Registry.empty) : Told [] h := by
  constructor
  all_goals
    rw [hempty]
    simp [Registry.empty, Stands, Marked, Invalid]

/-- One more call. -/
theorem told_call (ht : Told calls h) (hfits : call.Fits h)
    (honce : (insertions (calls ++ [call])).Nodup) : Told (calls ++ [call]) (call.on h) := by
  obtain ⟨hknown, hsub, hreg, hfreed, htimers⟩ := ht
  rw [insertions_concat] at honce
  have hnodup : h.registry.registered.Nodup := (List.nodup_append.mp honce).1.sublist hsub
  constructor
  · intro who hw
    cases call with
    | insert w =>
      rcases List.mem_append.mp hw with hw | hw
      · exact hknown who hw
      · rw [List.mem_singleton.mp hw]
        exact hfits
    | retire w => exact hknown who (List.mem_of_mem_erase hw)
    | resolveTimer id owner =>
      have hw : who ∈ (h.registry.resolveTimer id owner).2.registered := hw
      rw [registered_resolveTimer] at hw
      exact hknown who hw
    | broadcast e =>
      refine isSome_broadcast h e who (hknown who ?_)
      rwa [show (RegistryCall.broadcast e).on h = h.broadcast e from rfl, registry_broadcast] at hw
    | release | markFreed | invalidateTimers | resolve | find => exact hknown who hw
  · rw [insertions_concat]
    cases call with
    | insert w => exact hsub.append (.refl _)
    | retire w => simpa [inserted?, on, Registry.retire] using List.erase_sublist.trans hsub
    | resolveTimer id owner => simpa [inserted?, on, registered_resolveTimer] using hsub
    | broadcast e => simpa [inserted?, on, registry_broadcast] using hsub
    | release | markFreed | invalidateTimers | resolve | find =>
      simpa [inserted?, on, Registry.release, Registry.markFreed, Registry.invalidateTimers] using hsub
  · intro who
    have hold := hreg who
    unfold Stands at hold ⊢
    rw [since_concat, ← hold]
    cases call with
    | insert w => simp [on, Registry.insert, or_comm, eq_comm]
    | retire w => simp [on, Registry.retire, hnodup.mem_erase_iff, and_comm, eq_comm]
    | resolveTimer id owner => simp [on, registered_resolveTimer]
    | broadcast e => simp [on, registry_broadcast]
    | release | markFreed | invalidateTimers | resolve | find =>
      simp [on, Registry.release, Registry.markFreed, Registry.invalidateTimers]
  · intro who
    have hold := hfreed who
    unfold Marked at hold ⊢
    rw [since_concat, ← hold]
    cases call with
    | insert w => simp [on, Registry.insert, Marks, Clears, and_comm, eq_comm]
    | retire w => simp [on, Registry.retire, Marks, Clears, eq_comm]
    | release w => simp [on, Registry.release, Marks, Clears, and_comm, eq_comm]
    | markFreed w => simp [on, Registry.markFreed, Marks, Clears, eq_comm]
    | resolveTimer id owner => simp [on, freed_resolveTimer, Marks, Clears]
    | broadcast e => simp [on, registry_broadcast, Marks, Clears]
    | invalidateTimers | resolve | find =>
      simp [on, Registry.invalidateTimers, Marks, Clears]
  · intro id
    have hold := htimers id
    unfold Invalid at hold ⊢
    rw [since_concat, ← hold]
    cases call with
    | invalidateTimers ids => simp [on, Registry.invalidateTimers, Invalidates, Consumes]
    | resolveTimer i owner =>
      simp [on, freedTimers_resolveTimer, Invalidates, Consumes, and_comm, eq_comm]
    | broadcast e => simp [on, registry_broadcast, Invalidates, Consumes]
    | insert | retire | release | markFreed | resolve | find =>
      simp [on, Registry.insert, Registry.retire, Registry.release, Registry.markFreed, Invalidates,
        Consumes]

theorem told_of_calls (hc : Calls h₀ calls h) (hempty : h₀.registry = Registry.empty)
    (honce : (insertions calls).Nodup) : Told calls h := by
  induction hc with
  | refl => exact told_empty hempty
  | call call _ hfits ih =>
    refine told_call (ih ?_) hfits honce
    rw [insertions_concat] at honce
    exact (List.nodup_append.mp honce).1
  | meanwhile _ hregistry hkept ih =>
    obtain ⟨hknown, hsub, hreg, hfreed, htimers⟩ := ih honce
    rw [← hregistry] at hknown hsub hreg hfreed htimers
    exact ⟨fun who hw => hkept who (hknown who hw), hsub, hreg, hfreed, htimers⟩

/-! ## 2. Events for everybody -/

theorem computers_queueAll (h : Host) (e : Event) {all : List Handle} (hn : all.Nodup) :
    (all.foldl (fun h who => h.queueEvent who e) h).computers =
      h.computers.map fun c => if c.handle ∈ all then c.queue e else c := by
  induction all generalizing h with
  | nil => simp
  | cons who rest ih =>
    rw [List.nodup_cons] at hn
    rw [List.foldl_cons, ih _ hn.2, queueEvent, modify, List.map_map]
    refine List.map_congr_left fun c _ => ?_
    by_cases hc : c.handle = who
    · have hrest : (c.queue e).handle ∉ rest := hc ▸ hn.1
      simp [Function.comp, hc, hrest]
    · simp [Function.comp, hc]

theorem computers_broadcast (hn : h.registry.registered.Nodup) (e : Event) :
    (h.broadcast e).computers =
      h.computers.map fun c => if c.handle ∈ h.registry.registered then c.queue e else c :=
  computers_queueAll h e hn

/-! ## 3. What the registry answers -/

/-- The computer that a handle resolves to. -/
def resolved? (h : Host) (who : Handle) : Option Computer := (h.registry.resolve? who).bind h.computer?

/-- The computer that a timer goes to. -/
def timerGoesTo? (h : Host) (id : TimerId) (owner : Handle) : Option Computer :=
  (h.registry.resolveTimer id owner).1.bind h.computer?

theorem resolve?_eq_some {r : Registry} {w : Handle} :
    r.resolve? who = some w ↔ w = who ∧ who ∈ r.registered ∧ who ∉ r.freed := by
  unfold Registry.resolve? Registry.resolves
  constructor
  · intro hr
    split at hr
    · next hboth =>
      cases hr
      simp only [Bool.and_eq_true, decide_eq_true_eq] at hboth
      exact ⟨rfl, hboth.2, hboth.1⟩
    · cases hr
  · rintro ⟨rfl, hreg, hfreed⟩
    exact if_pos (by simp [hreg, hfreed])

theorem resolved?_eq_some {c : Computer} : h.resolved? who = some c ↔
    who ∈ h.registry.registered ∧ who ∉ h.registry.freed ∧ h.computer? who = some c := by
  unfold resolved?
  rw [Option.bind_eq_some_iff]
  constructor
  · rintro ⟨w, hw, hc⟩
    obtain ⟨rfl, hreg, hfreed⟩ := resolve?_eq_some.mp hw
    exact ⟨hreg, hfreed, hc⟩
  · rintro ⟨hreg, hfreed, hc⟩
    exact ⟨who, resolve?_eq_some.mpr ⟨rfl, hreg, hfreed⟩, hc⟩

/-- A handle that has been inserted and then retired does not stand, whatever comes after. -/
theorem not_stands_of_retired {before after : List RegistryCall}
    (honce : (insertions (before ++ .retire who :: after)).Nodup) (hin : .insert who ∈ before) :
    ¬Stands who (before ++ .retire who :: after) := by
  intro hs
  rcases since_append.mp hs with hlater | ⟨-, hno⟩
  · -- Then it was inserted a second time.
    obtain ⟨call, hmem, rfl⟩ := hlater.exists_mem
    unfold insertions at honce
    rw [List.filterMap_append, List.nodup_append] at honce
    exact honce.2.2 who (mem_insertions.mpr hin) who (mem_insertions.mpr hmem) rfl
  · exact hno _ List.mem_cons_self rfl

/-- After any calls in which no handle is inserted twice: who is registered and who is being torn down; what a
handle resolves to, and that it is nothing once its computer was retired; where a timer goes; and what
becomes of an event for everybody. -/
theorem handles_name_instances (h₀ h : Host) (calls : List RegistryCall) (hc : Calls h₀ calls h)
    (hempty : h₀.registry = Registry.empty) (honce : (insertions calls).Nodup) :
    (h.registry.registered.Sublist (insertions calls) ∧ h.registry.registered.Nodup ∧
      ∀ who, who ∈ h.registry.registered ↔ Stands who calls) ∧
    (∀ who, who ∈ h.registry.freed ↔ Marked who calls) ∧
    (∀ who c, h.resolved? who = some c ↔
      Stands who calls ∧ ¬Marked who calls ∧ h.computer? who = some c) ∧
    (∀ who, Stands who calls → ∃ c, h.computer? who = some c ∧ c.handle = who) ∧
    (∀ who before after, calls = before ++ .retire who :: after → .insert who ∈ before →
      h.resolved? who = none ∧ ∀ id, h.timerGoesTo? id who = none) ∧
    (∀ id owner, (Invalid id calls → h.timerGoesTo? id owner = none) ∧
      (¬Invalid id calls → h.timerGoesTo? id owner = h.resolved? owner) ∧
      (∀ i, i ∈ (h.registry.resolveTimer id owner).2.freedTimers ↔ i ≠ id ∧ Invalid i calls) ∧
      (h.registry.resolveTimer id owner).2 =
        { h.registry with freedTimers := (h.registry.resolveTimer id owner).2.freedTimers }) ∧
    (∀ e, (h.broadcast e).registry = h.registry ∧ (h.broadcast e).computers =
      h.computers.map fun c => if c.handle ∈ h.registry.registered then c.queue e else c) := by
  have ht := told_of_calls hc hempty honce
  have hnodup : h.registry.registered.Nodup := honce.sublist ht.sublist
  have hresolved (who : Handle) (c : Computer) : h.resolved? who = some c ↔
      Stands who calls ∧ ¬Marked who calls ∧ h.computer? who = some c := by
    rw [resolved?_eq_some, ht.registered, ht.freed]
  have hgone (who : Handle) (hnot : ¬Stands who calls) : h.resolved? who = none :=
    Option.eq_none_iff_forall_ne_some.mpr fun c hsome => hnot ((hresolved who c).mp hsome).1
  have hgoes (id : TimerId) (owner : Handle) : h.timerGoesTo? id owner =
      if id ∈ h.registry.freedTimers then none else h.resolved? owner := by
    unfold timerGoesTo? resolved?
    rw [resolveTimer_fst]
    split <;> rfl
  refine ⟨⟨ht.sublist, hnodup, ht.registered⟩, ht.freed, hresolved, fun who hs => ?_,
    fun who before after heq hin => ?_, fun id owner => ⟨fun hi => ?_, fun hi => ?_, fun i => ?_, ?_⟩,
    fun e => ⟨registry_broadcast h e, computers_broadcast hnodup e⟩⟩
  · obtain ⟨c, hcomp⟩ := Option.isSome_iff_exists.mp (ht.known who ((ht.registered who).mpr hs))
    exact ⟨c, hcomp, handle_of_computer? hcomp⟩
  · subst heq
    have hnone := hgone who (not_stands_of_retired honce hin)
    refine ⟨hnone, fun id => ?_⟩
    rw [hgoes, hnone, ite_self]
  · rw [hgoes, if_pos ((ht.freedTimers id).mpr hi)]
  · rw [hgoes, if_neg fun hmem => hi ((ht.freedTimers id).mp hmem)]
  · rw [freedTimers_resolveTimer, ht.freedTimers]
  · exact resolveTimer_eq ..

end

/-- Two instances of one id have been made. -/
def namesakes : Host :=
  { Host.new (.standard .default) ⟨[], []⟩ default with
    computers := [1, 2].map fun n => .new ⟨7, n⟩ false none .empty .default "" }

/-- The second instance takes the place of the first one, which had a timer running. -/
def succession : List RegistryCall :=
  [.insert ⟨7, 1⟩, .retire ⟨7, 1⟩, .invalidateTimers [⟨1⟩], .release ⟨7, 1⟩, .insert ⟨7, 2⟩]

/-- The handle of the first instance does not resolve to the second one, and its timer goes nowhere. -/
theorem handles_name_instances_namesakes :
    ∃ h, Calls namesakes succession h ∧ namesakes.registry = Registry.empty ∧
      (insertions succession).Nodup ∧ h.registry.registered = [⟨7, 2⟩] ∧ ⟨7, 1⟩ ∉ h.registry.freed ∧
      h.resolved? ⟨7, 1⟩ = none ∧ (∃ c, h.resolved? ⟨7, 2⟩ = some c) ∧
      h.timerGoesTo? ⟨1⟩ ⟨7, 2⟩ = none ∧ h.timerGoesTo? ⟨2⟩ ⟨7, 2⟩ = h.resolved? ⟨7, 2⟩ := by
  have hc : Calls namesakes succession (succession.foldl (fun h call => call.on h) namesakes) :=
    .call (.insert ⟨7, 2⟩) (.call (.release ⟨7, 1⟩) (.call (.invalidateTimers [⟨1⟩])
      (.call (.retire ⟨7, 1⟩) (.call (h := namesakes) (.insert ⟨7, 1⟩) .refl rfl) trivial) trivial)
      trivial) rfl
  generalize hend : succession.foldl (fun h call => call.on h) namesakes = h at hc
  have honce : (insertions succession).Nodup := by decide
  obtain ⟨-, hfreed, hresolved, hknown, hretired, htimers, -⟩ :=
    handles_name_instances namesakes h succession hc rfl honce
  have hstands : Stands ⟨7, 2⟩ succession :=
    ⟨[.insert ⟨7, 1⟩, .retire ⟨7, 1⟩, .invalidateTimers [⟨1⟩], .release ⟨7, 1⟩], _, [], rfl, rfl, by simp⟩
  have hunmarked (n : Nat) : ¬Marked ⟨7, n⟩ succession := by
    rw [← hfreed, ← hend]
    simp [succession, RegistryCall.on, namesakes, Host.new, Registry.insert, Registry.retire,
      Registry.invalidateTimers, Registry.release, Registry.empty]
  have hinvalid : Invalid ⟨1⟩ succession :=
    ⟨[.insert ⟨7, 1⟩, .retire ⟨7, 1⟩], _, [.release ⟨7, 1⟩, .insert ⟨7, 2⟩], rfl, by
      simp [Invalidates], by simp [Consumes]⟩
  have hvalid : ¬Invalid ⟨2⟩ succession := by
    rintro ⟨before, call, after, heq, hp, -⟩
    have hmem : call ∈ succession := heq ▸ by simp
    simp only [succession, List.mem_cons, List.not_mem_nil, or_false] at hmem
    rcases hmem with rfl | rfl | rfl | rfl | rfl <;> simp [Invalidates] at hp
  refine ⟨h, hc, rfl, honce, by rw [← hend]; rfl, fun hmem => hunmarked 1 ((hfreed _).mp hmem),
    (hretired ⟨7, 1⟩ [.insert ⟨7, 1⟩] _ rfl List.mem_cons_self).1, ?_, (htimers ⟨1⟩ _).1 hinvalid,
    (htimers ⟨2⟩ _).2.1 hvalid⟩
  obtain ⟨c, hcomp, -⟩ := hknown _ hstands
  exact ⟨c, (hresolved _ c).mpr ⟨hstands, hunmarked 2, hcomp⟩⟩

end Host

end ComputerHost

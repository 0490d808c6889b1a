import ComputerHost.Proofs.Host.Simulation

/-!
# The delivery of events

What becomes of the events that are pushed for a computer during a boot: every one of them is handed to
the program, or consumed by a wait whose filter it does not pass, or still there, and their order is
that of the pushes.

Results:
1. `moveOn?_of_found`: a wait finds the first event that passes its filter. `Matches.owed`: a program
   that goes on running is resumed with everything that was found for it.
2. `no_event_lost`: the delivery of events in one boot.
-/

namespace ComputerHost.Host

section
variable {who : Handle} {h h' : Host} {l : Loop} {history past later : List Happening}
  {session : Session} {filter : String} {deadline : Nat} {warned : Bool}

/-! ## 1. From the queue to the program -/

theorem delivered_sublist_consumed (history : List Happening) :
    (deliveredOf history).Sublist (consumedOf history) := by
  induction history with
  | nil => exact .slnil
  | cons x history ih =>
    unfold deliveredOf consumedOf at ih ⊢
    rw [List.filterMap_cons, List.filterMap_cons]
    cases x with
    | delivered e => exact ih.cons_cons e
    | dropped e => exact ih.cons e
    | booted | pushed | resumed | suspended | timedOut | stopped => exact ih

/-- Whatever a computer is at, a push adds its event and nothing else. -/
theorem happenings_queueEvent (hc : (h.computer? who).isSome = true) (e : Event) :
    h.happenings who none (h.queueEvent who e) = [.pushed e] := by
  obtain ⟨c, hc⟩ := Option.isSome_iff_exists.mp hc
  have hmodify : (h.queueEvent who e).computer? who = some (c.queue e) :=
    computer?_modify_self hc (·.queue e) fun _ => rfl
  have hq : (h.queueEvent who e).queue who = h.queue who ++ [e] := by
    rw [queue_of_computer? hc]
    exact queue_of_computer? hmodify
  rw [happenings, if_neg (by simp), arrivals, hq, List.drop_left]
  rfl

theorem happenings_of_taken {e : Event} {rest : List Event}
    (hs : h.stage? who = some (.waiting session filter deadline warned))
    (hq : h.queue who = e :: rest) (hq' : h'.queue who = rest) :
    h.happenings who (some who) h' = [if e.passes filter then .delivered e else .dropped e] := by
  rw [happenings, if_pos rfl, arrivals_of_taken hq hq', deeds, hs, hq]
  rfl

/-- The events at the front that do not pass the filter go, and nothing else changes. -/
theorem moveOn?_of_skipped {skipped rest : List Event}
    (hs : h.stage? who = some (.waiting session filter deadline warned))
    (hc : (h.computer? who).isSome = true) (hq : h.queue who = skipped ++ rest)
    (hskip : ∀ e ∈ skipped, e.passes filter = false) (n : Nat) :
    ∃ h₁ : Host, h.moveOn? who (skipped.length + n) =
        (h₁.moveOn? who n).map (fun (later, h') => (skipped.map .dropped ++ later, h')) ∧
      h₁.stage? who = some (.waiting session filter deadline warned) ∧ h₁.queue who = rest ∧
      (h₁.computer? who).isSome = true ∧ h₁.clock = h.clock ∧
      h₁.runState? who = h.runState? who := by
  induction skipped generalizing h with
  | nil =>
    rw [List.length_nil, Nat.zero_add]
    exact ⟨h, Option.map_id'.symm, hs, hq, hc, rfl, rfl⟩
  | cons e skipped ih =>
    have he := hskip e List.mem_cons_self
    rw [List.cons_append] at hq
    have hmove := move?_of_waiting_cons hs hq
    have hq' := queue_setQueue hc (skipped ++ rest)
    have hhappen := happenings_of_taken hs hq hq'
    rw [he, if_neg Bool.false_ne_true] at hmove hhappen
    obtain ⟨h₁, hon, hs₁, hq₁, hc₁, hclock, hrun⟩ := ih (h := h.setQueue who (skipped ++ rest)) hs
      (isSome_setQueue hc _) hq' fun d hd => hskip d (List.mem_cons_of_mem e hd)
    refine ⟨h₁, ?_, hs₁, hq₁, hc₁, hclock, hrun.trans (runState?_setQueue hc _)⟩
    rw [List.length_cons, Nat.add_right_comm, moveOn?, hmove, Option.bind_some, hon, hhappen,
      Option.map_map]
    rfl

theorem moveOn?_of_found {e : Event} {skipped rest : List Event}
    (hs : h.stage? who = some (.waiting session filter deadline warned))
    (hc : (h.computer? who).isSome = true) (hq : h.queue who = skipped ++ e :: rest)
    (hskip : ∀ d ∈ skipped, d.passes filter = false) (he : e.passes filter = true) :
    ∃ h' : Host,
      h.moveOn? who (skipped.length + 1) = some (skipped.map .dropped ++ [.delivered e], h') ∧
      h'.clock = h.clock ∧ h'.stage? who = some (.resuming session e.values false) ∧
      h'.queue who = rest := by
  obtain ⟨h₁, hon, hs₁, hq₁, hc₁, hclock, -⟩ := moveOn?_of_skipped hs hc hq hskip 1
  have hmove := move?_of_waiting_cons hs₁ hq₁
  have hq' := queue_setQueue hc₁ rest
  let h' := (h₁.setQueue who rest).setStage who (.resuming session e.values false)
  have hhappen : h₁.happenings who (some who) h' = _ := happenings_of_taken hs₁ hq₁ hq'
  rw [if_pos he] at hmove hhappen
  refine ⟨h', ?_, hclock, stage?_setStage_self (h := h₁.setQueue who rest) hs₁ _, hq'⟩
  rw [hon, moveOn?, hmove, Option.bind_some, hhappen]
  rfl

/-- What the program has still to be resumed with waits in the stage of its thread. -/
theorem Matches.owed {args : List Value} (hm : Matches who l h) (hr : h.isRunning who = true)
    (ho : args ∈ l.mode.owed) :
    args = [] ∨ ∃ session warned, h.stage? who = some (.resuming session args warned) := by
  obtain ⟨pending, mode⟩ := l
  obtain ⟨stage, hs, hst⟩ := hm.stands
  cases mode with
  | running | waiting | halted => cases ho
  | due args' warned =>
    obtain rfl := List.mem_singleton.mp ho
    cases hst with
    | booting => exact .inl rfl
    | due session => exact .inr ⟨session, warned, hs⟩
    | finished _ _ hrest =>
      rcases hrest hr with hmode | ⟨_, hmode⟩
      · cases hmode
        exact .inl rfl
      · cases hmode
    | betweenBoots _ hr' =>
      rw [hr'] at hr
      cases hr

/-! ## 2. The events of a boot -/

/-- In one boot
- a push adds its event and nothing else;
- the pushed events are those that were consumed and then those that are pending, in the same order;
- the delivered ones are among them, in the same order;
- the program is resumed once with nothing and then with what was found for it, each once and in
  order, where at most the last finding is outstanding, and not for good while the computer runs;
- what is delivered is the first event not consumed before the suspension that passes its filter;
- if there is one, a wait drops what is before it, delivers it and leaves what is behind it;
- what is dropped does not pass the filter of the suspension, and is no request to terminate;
- a timeout finds everything consumed. -/
theorem no_event_lost (hr : BootRun who history h) :
    (∀ e, h.happenings who none (h.queueEvent who e) = [.pushed e]) ∧
    pushedOf history = consumedOf history ++ h.queue who ∧
    (deliveredOf history).Sublist (pushedOf history) ∧
    (resumedOf history = [] :: offersOf history ∨
      ∃ args, resumedOf history ++ [args] = [] :: offersOf history ∧
        (h.isRunning who = true → args = [] ∨
          ∃ session warned, h.stage? who = some (.resuming session args warned))) ∧
    (∀ past e later, history = past ++ .delivered e :: later →
      ∃ filter before, Waits filter before past ∧ firstFor? filter before past = some e) ∧
    (∀ session filter deadline warned e skipped rest,
      h.stage? who = some (.waiting session filter deadline warned) →
      h.queue who = skipped ++ e :: rest → (∀ d ∈ skipped, d.passes filter = false) →
      e.passes filter = true →
      ∃ h' : Host,
        h.moveOn? who (skipped.length + 1) = some (skipped.map .dropped ++ [.delivered e], h') ∧
        h'.clock = h.clock ∧ h'.stage? who = some (.resuming session e.values false) ∧
        h'.queue who = rest) ∧
    (∀ past e later, history = past ++ .dropped e :: later →
      e.kind ≠ Event.terminateKind ∧
        ∃ filter before, Waits filter before past ∧ e.passes filter = false) ∧
    (∀ past later, history = past ++ .timedOut :: later ∨ history = past ++ .stopped :: later →
      pushedOf past = consumedOf past) := by
  obtain ⟨l, ht, hm⟩ := mimics_of_bootRun hr
  have hpending : pushedOf history = consumedOf history ++ h.queue who := by
    rw [hm.pending]
    exact ht.pending
  have howed : [] :: offersOf history = resumedOf history ++ l.mode.owed := ht.owed
  refine ⟨happenings_queueEvent hm.computer, hpending, ?_, ?_, ?_, ?_, ?_, ?_⟩
  · rw [hpending]
    exact (delivered_sublist_consumed history).trans (List.sublist_append_left _ _)
  · rcases l.mode.owed_eq with hl | ⟨args, hl⟩
    · rw [hl, List.append_nil] at howed
      exact .inl howed.symm
    · rw [hl] at howed
      exact .inr ⟨args, howed.symm, fun hrun => hm.owed hrun (hl ▸ List.mem_cons_self)⟩
  · rintro past e later rfl
    exact ht.of_delivered
  · intro session filter deadline warned e skipped rest hs hq hskip he
    exact moveOn?_of_found hs hm.computer hq hskip he
  · rintro past e later rfl
    obtain ⟨filter, before, hw, he⟩ := ht.of_dropped
    refine ⟨fun hkind => ?_, filter, before, hw, he⟩
    simp [Event.passes, hkind] at he
  · rintro past later (rfl | rfl)
    · exact ht.of_timedOut.1
    · exact ht.of_stopped.1

end

def keyReader : Handle := ⟨0, 1⟩

/-- A boot that is about to empty the queue. Its program waits for a key and then for anything. -/
def readingKeys : Host :=
  let program : Script.Program :=
    ⟨"bios.lua", 0, [.yield "key", .yield "", .yield ""], false, none⟩
  let interpreter := { Script.Interpreter.fresh with coroutines := [some program] }
  { Host.new (HostSetup.standard .default) .empty default with
    computers := [Computer.new keyReader false none .empty .default ""],
    threads := [(keyReader, .booting [.clearEvents] (some ⟨interpreter, 1, 0, [], 0⟩))] }

/-- The host of `readingKeys` when the queue is empty. -/
def readyForKeys : Host := (readingKeys.move? keyReader).getD readingKeys

theorem bootRun_of_readyForKeys {h : Host} {history : List Happening}
    (hr : Run keyReader readyForKeys history h) (hb : .booted ∉ history) :
    BootRun keyReader history h := by
  have hmove : readingKeys.move? keyReader = some readyForKeys := rfl
  exact .intro rfl rfl hmove hr hb

/-- Of two events that come before the program looks for a key, the first is dropped. -/
theorem no_event_lost_readingKeys :
    ∃ h : Host, ∃ history, BootRun keyReader history h ∧
      history = [.pushed ⟨"mouse", []⟩, .pushed ⟨"key", []⟩, .resumed [], .suspended "key",
        .dropped ⟨"mouse", []⟩, .delivered ⟨"key", []⟩] ∧
      pushedOf history = consumedOf history ++ h.queue keyReader ∧
      ∃ filter before, Waits filter before (history.take 5) ∧
        firstFor? filter before (history.take 5) = some ⟨"key", []⟩ := by
  let pushed : Host :=
    (readyForKeys.queueEvent keyReader ⟨"mouse", []⟩).queueEvent keyReader ⟨"key", []⟩
  have hpushed : Run keyReader readyForKeys [.pushed ⟨"mouse", []⟩, .pushed ⟨"key", []⟩] pushed :=
    .snoc (.snoc (.refl readyForKeys) (.queues keyReader _)) (.queues keyReader _)
  obtain ⟨h, hmoves⟩ : ∃ h : Host, pushed.moveOn? keyReader 6 = some ([.resumed [],
      .suspended "key", .dropped ⟨"mouse", []⟩, .delivered ⟨"key", []⟩], h) := ⟨_, rfl⟩
  have hr := bootRun_of_readyForKeys (hpushed.trans (run_of_moveOn? hmoves)) (by simp)
  obtain ⟨-, hpending, -, -, hdelivered, -⟩ := no_event_lost hr
  exact ⟨h, _, hr, rfl, hpending, hdelivered _ ⟨"key", []⟩ [] rfl⟩

end ComputerHost.Host

import ComputerHost.Proofs.Host.History

/-!
# The loop of a boot

What the queue, the wait for an event and the loop that resumes the program amount to, told without a
host: `Loop` is the pending events and what the program is at, and `Goes` says what may happen next.

Results:
1. `Trace.pending`, `Trace.owed`: every event and every list of values is accounted for.
2. `Trace.of_waiting`, `Trace.of_warned`: how a loop came to wait, and to have warned its program.
3. `Trace.of_delivered`, `Trace.of_dropped`, `Trace.of_timedOut`, `Trace.of_stopped`: what a wait has
   seen when it takes an event, drops one or gives up.
4. `Trace.resumed_between`: what lies between two warnings.
-/

namespace ComputerHost.Host

namespace Loop

/-- What a program is at. -/
inductive Mode where
  /-- To be resumed with some values. -/
  | due (args : List Value) (warned : Bool)
  /-- Resumed, and not suspended since. -/
  | running (warned : Bool)
  | waiting (filter : String) (warned : Bool)
  /-- Stopped for not heeding a warning. -/
  | halted

end Loop

structure Loop where
  pending : List Event
  mode : Loop.Mode

namespace Loop

/-- A loop whose program has not been resumed yet. -/
def fresh : Loop := ⟨[], .due [] false⟩

/-- What may happen to a loop, and what becomes of it. -/
inductive Goes : Loop → Happening → Loop → Prop
  | pushed (pending : List Event) (mode : Mode) (e : Event) :
      Goes ⟨pending, mode⟩ (.pushed e) ⟨pending ++ [e], mode⟩
  | resumed (pending : List Event) (args : List Value) (warned : Bool) :
      Goes ⟨pending, .due args warned⟩ (.resumed args) ⟨pending, .running warned⟩
  | suspended (pending : List Event) (filter : String) (warned : Bool) :
      Goes ⟨pending, .running warned⟩ (.suspended filter) ⟨pending, .waiting filter warned⟩
  | dropped {e : Event} {filter : String} (rest : List Event) (warned : Bool) :
      e.passes filter = false →
      Goes ⟨e :: rest, .waiting filter warned⟩ (.dropped e) ⟨rest, .waiting filter warned⟩
  | delivered {e : Event} {filter : String} (rest : List Event) (warned : Bool) :
      e.passes filter = true →
      Goes ⟨e :: rest, .waiting filter warned⟩ (.delivered e) ⟨rest, .due e.values false⟩
  | timedOut (filter : String) :
      Goes ⟨[], .waiting filter false⟩ .timedOut ⟨[], .due Event.terminate.values true⟩
  | stopped (filter : String) : Goes ⟨[], .waiting filter true⟩ .stopped ⟨[], .halted⟩

inductive Trace : Loop → List Happening → Loop → Prop
  | nil (l : Loop) : Trace l [] l
  | cons {l l' l'' : Loop} {x : Happening} {history : List Happening} :
      Goes l x l' → Trace l' history l'' → Trace l (x :: history) l''

section
variable {l l' l'' : Loop} {history past later : List Happening} {x : Happening}

theorem Goes.trace (hg : Goes l x l') : Trace l [x] l' := .cons hg (.nil l')

theorem Trace.append (ht : Trace l past l') (ht' : Trace l' later l'') :
    Trace l (past ++ later) l'' := by
  induction ht with
  | nil => exact ht'
  | cons hg _ ih => exact .cons hg (ih ht')

theorem Trace.split (ht : Trace l (past ++ later) l'') :
    ∃ l', Trace l past l' ∧ Trace l' later l'' := by
  induction past generalizing l with
  | nil => exact ⟨l, .nil l, ht⟩
  | cons x past ih =>
    cases ht with
    | cons hg ht =>
      obtain ⟨l', hpast, hlater⟩ := ih ht
      exact ⟨l', .cons hg hpast, hlater⟩

/-- The loop before and after something in its history. -/
theorem Trace.at (ht : Trace l (past ++ x :: later) l'') :
    ∃ before after, Trace l past before ∧ Goes before x after ∧ Trace after later l'' := by
  obtain ⟨before, hpast, hrest⟩ := ht.split
  cases hrest with
  | cons hg hlater => exact ⟨before, _, hpast, hg, hlater⟩

theorem trace_pushes (pending events : List Event) (mode : Mode) :
    Trace ⟨pending, mode⟩ (events.map .pushed) ⟨pending ++ events, mode⟩ := by
  induction events generalizing pending with
  | nil =>
    rw [List.append_nil]
    exact .nil _
  | cons e events ih =>
    have h := ih (pending ++ [e])
    rw [List.append_assoc, List.singleton_append] at h
    exact .cons (.pushed pending mode e) h

/-! ## 1. Accounts -/

/-- Every event that was there or was pushed has been consumed or is there, in the same order. -/
theorem Trace.pending (ht : Trace l history l') :
    l.pending ++ pushedOf history = consumedOf history ++ l'.pending := by
  induction ht with
  | nil l => exact List.append_nil l.pending
  | cons hg _ ih =>
    unfold pushedOf consumedOf at ih ⊢
    rw [List.filterMap_cons, List.filterMap_cons]
    cases hg with
    | pushed => simpa [Happening.pushed?, Happening.consumed?] using ih
    | resumed | suspended | timedOut | stopped => exact ih
    | dropped | delivered => exact congrArg (List.cons _) ih

/-- The values that a program has still to be resumed with. -/
def Mode.owed : Mode → List (List Value)
  | .due args _ => [args]
  | _ => []

theorem Mode.owed_eq (mode : Mode) : mode.owed = [] ∨ ∃ args, mode.owed = [args] := by
  cases mode with
  | due args => exact .inr ⟨args, rfl⟩
  | running | waiting | halted => exact .inl rfl

/-- A program is resumed with what was found for it, each once and in order. -/
theorem Trace.owed (ht : Trace l history l') :
    l.mode.owed ++ offersOf history = resumedOf history ++ l'.mode.owed := by
  induction ht with
  | nil l => exact List.append_nil l.mode.owed
  | cons hg _ ih =>
    unfold offersOf resumedOf at ih ⊢
    rw [List.filterMap_cons, List.filterMap_cons]
    cases hg with
    | pushed | suspended | dropped | delivered | timedOut | stopped => exact ih
    | resumed => exact congrArg (List.cons _) ih

theorem Trace.resumed_of_owed {args : List Value} (ht : Trace l history l')
    (hl : l.mode.owed = [args]) (hl' : l'.mode.owed = []) : .resumed args ∈ history := by
  have hargs : args ∈ resumedOf history := by
    have howed := ht.owed
    rw [hl, hl', List.append_nil] at howed
    rw [← howed]
    exact List.mem_cons_self
  obtain ⟨x, hx, hxargs⟩ := List.mem_filterMap.mp hargs
  cases x with
  | resumed args =>
    cases hxargs
    exact hx
  | booted | pushed | suspended | dropped | delivered | timedOut | stopped => cases hxargs

/-! ## 2. How a loop came to be where it is -/

/-- Has the program of a loop that does not wait been warned? -/
def Mode.active? : Mode → Option Bool
  | .due _ warned | .running warned => some warned
  | _ => none

/-- Nothing has come for the program since it was warned. -/
def Mode.isWarned : Mode → Bool
  | .due _ warned | .running warned | .waiting _ warned => warned
  | .halted => true

theorem Trace.mode_of_pushes (ht : Trace l history l')
    (hp : history.all Happening.isPush = true) : l'.mode = l.mode := by
  induction ht with
  | nil => rfl
  | cons hg _ ih =>
    simp only [List.all_cons, Bool.and_eq_true] at hp
    have hmode := ih hp.2
    cases hg with
    | pushed => exact hmode
    | resumed | suspended | dropped | delivered | timedOut | stopped => cases hp.1

theorem Trace.mode_of_quiet {filter : String} {warned : Bool} (ht : Trace l history l')
    (hm : l.mode = .waiting filter warned)
    (hq : history.all (·.isQuiet filter) = true) : l'.mode = .waiting filter warned := by
  induction ht with
  | nil => exact hm
  | cons hg _ ih =>
    simp only [List.all_cons, Bool.and_eq_true] at hq
    cases hg with
    | pushed | dropped => exact ih hm hq.2
    | resumed | suspended | delivered | timedOut | stopped => cases hq.1

theorem Trace.mode_of_halted (ht : Trace l history l') (hm : l.mode = .halted) :
    l'.mode = .halted := by
  induction ht with
  | nil => exact hm
  | cons hg _ ih =>
    cases hg with
    | pushed => exact ih hm
    | resumed | suspended | dropped | delivered | timedOut | stopped => cases hm

theorem Trace.active_of_not_suspended {warned : Bool} (ht : Trace l history l')
    (hm : l.mode.active? = some warned) (hn : ∀ filter, .suspended filter ∉ history) :
    l'.mode.active? = some warned := by
  induction ht with
  | nil => exact hm
  | cons hg _ ih =>
    have hn' (filter : String) := fun hmem => hn filter (List.mem_cons_of_mem _ hmem)
    cases hg with
    | pushed | resumed => exact ih hm hn'
    | suspended => exact absurd List.mem_cons_self (hn _)
    | dropped | delivered | timedOut | stopped => cases hm

/-- Only an event takes a warning back. -/
theorem Trace.warned_of_not_delivered (ht : Trace l history l') (hw : l.mode.isWarned = true)
    (hn : ∀ e, .delivered e ∉ history) : l'.mode.isWarned = true := by
  induction ht with
  | nil => exact hw
  | cons hg _ ih =>
    have hn' (e : Event) := fun hmem => hn e (List.mem_cons_of_mem _ hmem)
    cases hg with
    | pushed | resumed | suspended | dropped => exact ih hw hn'
    | delivered => exact absurd List.mem_cons_self (hn _)
    | timedOut | stopped => exact ih rfl hn'

theorem Trace.of_waiting {filter : String} {warned : Bool} (ht : Trace l history l')
    (hm : l'.mode = .waiting filter warned) :
    (l.mode = .waiting filter warned ∧ history.all (·.isQuiet filter) = true) ∨
      ∃ before since pending, history = before ++ .suspended filter :: since ∧
        since.all (·.isQuiet filter) = true ∧ Trace l before ⟨pending, .running warned⟩ := by
  -- what comes first belongs to the wait, is the suspension that begins it, or lies before it
  induction ht with
  | nil => exact .inl ⟨hm, rfl⟩
  | cons hg _ ih =>
    rcases ih hm with ⟨hl, hq⟩ | ⟨before, since, pending, heq, hq, hbefore⟩
    · cases hg with
      | pushed => exact .inl ⟨hl, hq⟩
      | suspended pending =>
        cases hl
        exact .inr ⟨[], _, pending, rfl, hq, .nil _⟩
      | dropped _ _ hfails =>
        cases hl
        refine .inl ⟨rfl, ?_⟩
        simpa [Happening.isQuiet, hfails] using hq
      | resumed | delivered | timedOut | stopped => cases hl
    · exact .inr ⟨_ :: before, since, pending, by rw [heq]; rfl, hq, .cons hg hbefore⟩

theorem Trace.of_warned (ht : Trace l history l') (hm : l'.mode.active? = some true) :
    (l.mode.active? = some true ∧ ∀ filter, .suspended filter ∉ history) ∨
      ∃ before since, history = before ++ .timedOut :: since ∧
        ∀ filter, .suspended filter ∉ since := by
  induction ht with
  | nil => exact .inl ⟨hm, fun _ => List.not_mem_nil⟩
  | cons hg _ ih =>
    rcases ih hm with ⟨hl, hn⟩ | ⟨before, since, heq, hn⟩
    · cases hg with
      | pushed | resumed => exact .inl ⟨hl, fun filter => by simpa using hn filter⟩
      | timedOut => exact .inr ⟨[], _, rfl, hn⟩
      | suspended | dropped | delivered | stopped => cases hl
    · exact .inr ⟨_ :: before, since, by rw [heq]; rfl, hn⟩

/-! ## 3. Waits -/

theorem not_passes_of_quiet {filter : String} {e : Event}
    (hq : history.all (·.isQuiet filter) = true) (he : e ∈ consumedOf history) :
    e.passes filter = false := by
  obtain ⟨x, hx, hc⟩ := List.mem_filterMap.mp he
  have hquiet := List.all_eq_true.mp hq x hx
  cases x with
  | dropped d =>
    cases hc
    simpa [Happening.isQuiet] using hquiet
  | delivered => cases hquiet
  | booted | pushed | resumed | suspended | timedOut | stopped => cases hc

theorem consumedOf_append : consumedOf (past ++ later) = consumedOf past ++ consumedOf later :=
  List.filterMap_append

/-- A wait has taken nothing that passes its filter. -/
theorem Trace.waits {filter : String} {warned : Bool} (ht : Trace fresh past l)
    (hm : l.mode = .waiting filter warned) :
    ∃ before pending skipped, Waits filter before past ∧
      Trace fresh before ⟨pending, .running warned⟩ ∧
      consumedOf past = consumedOf before ++ skipped ∧ ∀ e ∈ skipped, e.passes filter = false := by
  rcases ht.of_waiting hm with ⟨hl, -⟩ | ⟨before, since, pending, rfl, hq, hbefore⟩
  · cases hl
  · exact ⟨before, pending, consumedOf since, ⟨since, rfl, hq⟩, hbefore, consumedOf_append,
      fun e => not_passes_of_quiet hq⟩

theorem Trace.found {filter : String} {warned : Bool} {e : Event} {rest : List Event}
    (ht : Trace fresh past ⟨e :: rest, .waiting filter warned⟩) (he : e.passes filter = true) :
    ∃ before, Waits filter before past ∧ firstFor? filter before past = some e := by
  obtain ⟨before, -, skipped, hw, -, hc, hskip⟩ := ht.waits rfl
  refine ⟨before, hw, ?_⟩
  have hp : pushedOf past = consumedOf before ++ (skipped ++ e :: rest) := by
    rw [← List.append_assoc, ← hc]
    exact ht.pending
  have hnone : skipped.find? (·.passes filter) = none := by
    rw [List.find?_eq_none]
    intro d hd
    simp [hskip d hd]
  rw [firstFor?, hp, List.drop_left, List.find?_append, hnone, Option.none_or,
    List.find?_cons_of_pos he]

theorem Trace.of_delivered {e : Event} (ht : Trace fresh (past ++ .delivered e :: later) l) :
    ∃ filter before, Waits filter before past ∧ firstFor? filter before past = some e := by
  obtain ⟨_, _, hpast, hg, -⟩ := ht.at
  cases hg with
  | delivered rest warned he => exact ⟨_, hpast.found he⟩

theorem Trace.of_dropped {e : Event} (ht : Trace fresh (past ++ .dropped e :: later) l) :
    ∃ filter before, Waits filter before past ∧ e.passes filter = false := by
  obtain ⟨_, _, hpast, hg, -⟩ := ht.at
  cases hg with
  | dropped rest warned he =>
    obtain ⟨before, -, -, hw, -⟩ := hpast.waits rfl
    exact ⟨_, before, hw, he⟩

theorem Trace.warned_iff {warned : Bool} (ht : Trace fresh past l)
    (hm : l.mode.active? = some warned) : warned = true ↔ Warned past := by
  constructor
  · rintro rfl
    rcases ht.of_warned hm with ⟨hl, -⟩ | hw
    · cases hl
    · exact hw
  · rintro ⟨before, since, rfl, hn⟩
    obtain ⟨_, after, -, hg, hsince⟩ := ht.at
    have hafter : after.mode.active? = some true := by
      cases hg
      rfl
    exact Option.some.inj (hm.symm.trans (hsince.active_of_not_suspended hafter hn))

/-- A wait with nothing left to look at has consumed everything, and nothing of it was for the
program. -/
theorem Trace.exhausted {filter : String} {warned : Bool}
    (ht : Trace fresh past ⟨[], .waiting filter warned⟩) :
    pushedOf past = consumedOf past ∧ ∃ before, Waits filter before past ∧
      firstFor? filter before past = none ∧ (warned = true ↔ Warned before) := by
  have hp : pushedOf past = consumedOf past := ht.pending.trans (List.append_nil _)
  obtain ⟨before, pending, skipped, hw, hbefore, hc, hskip⟩ := ht.waits rfl
  refine ⟨hp, before, hw, ?_, hbefore.warned_iff rfl⟩
  rw [firstFor?, hp, hc, List.drop_left, List.find?_eq_none]
  intro d hd
  simp [hskip d hd]

theorem Trace.of_timedOut (ht : Trace fresh (past ++ .timedOut :: later) l) :
    pushedOf past = consumedOf past ∧ ∃ filter before, Waits filter before past ∧
      firstFor? filter before past = none ∧ ¬Warned before := by
  obtain ⟨_, _, hpast, hg, -⟩ := ht.at
  cases hg with
  | timedOut filter =>
    obtain ⟨hp, before, hw, hnone, hwarned⟩ := hpast.exhausted
    exact ⟨hp, filter, before, hw, hnone, fun h => nomatch hwarned.mpr h⟩

theorem Trace.of_stopped (ht : Trace fresh (past ++ .stopped :: later) l) :
    pushedOf past = consumedOf past ∧ ∃ filter before, Waits filter before past ∧
      firstFor? filter before past = none ∧ Warned before := by
  obtain ⟨_, _, hpast, hg, -⟩ := ht.at
  cases hg with
  | stopped filter =>
    obtain ⟨hp, before, hw, hnone, hwarned⟩ := hpast.exhausted
    exact ⟨hp, filter, before, hw, hnone, hwarned.mp rfl⟩

/-- Whatever comes in between, a wait takes the first event there is for the program next. -/
theorem Trace.deeds_of_found {filter : String} {warned : Bool} {e : Event}
    {skipped rest : List Event}
    (ht : Trace ⟨skipped ++ e :: rest, .waiting filter warned⟩ history l')
    (hskip : ∀ d ∈ skipped, d.passes filter = false) (he : e.passes filter = true) :
    deedsOf history <+: skipped.map .dropped ++ [.delivered e] ∨
      skipped.map .dropped ++ [.delivered e] <+: deedsOf history := by
  -- the events that are pushed meanwhile are behind `e`, and only the front of the queue is taken
  generalize hl : (⟨skipped ++ e :: rest, .waiting filter warned⟩ : Loop) = l at ht
  induction ht generalizing skipped rest with
  | nil => exact .inl List.nil_prefix
  | cons hg _ ih =>
    cases hg with
    | pushed pending mode d =>
      cases hl
      have hpending : skipped ++ e :: rest ++ [d] = skipped ++ e :: (rest ++ [d]) := by simp
      rw [hpending] at ih
      exact ih hskip rfl
    | @dropped d _ pending _ hd =>
      cases skipped with
      | nil =>
        cases hl
        rw [he] at hd
        cases hd
      | cons d skipped =>
        cases hl
        have hrest := ih (fun d hd => hskip d (List.mem_cons_of_mem _ hd)) rfl
        exact hrest.imp (List.cons_prefix_cons.mpr ⟨rfl, ·⟩) (List.cons_prefix_cons.mpr ⟨rfl, ·⟩)
    | delivered pending _ hd =>
      cases skipped with
      | nil =>
        cases hl
        exact .inr (List.cons_prefix_cons.mpr ⟨rfl, List.nil_prefix⟩)
      | cons d skipped =>
        cases hl
        rw [hskip _ List.mem_cons_self] at hd
        cases hd
    | resumed | suspended => cases hl
    | timedOut | stopped => simp at hl

/-! ## 4. Warnings -/

/-- After a warning and before the next one the program is resumed with an event. -/
theorem Trace.resumed_between {between : List Happening}
    (ht : Trace fresh (past ++ .timedOut :: between ++ .timedOut :: later) l) :
    ∃ e before after, between = before ++ .delivered e :: after ∧ .resumed e.values ∈ after := by
  obtain ⟨second, _, hsecond, hg, -⟩ := ht.at
  obtain ⟨_, first, -, hg', hbetween⟩ := hsecond.at
  have hfirst : first.mode.isWarned = true := by
    cases hg'
    rfl
  have hend : second.mode.isWarned = false ∧ second.mode.owed = [] := by
    cases hg
    exact ⟨rfl, rfl⟩
  -- the second warning needs a wait that was not warned, so something took the first one back
  obtain ⟨e, he⟩ : ∃ e, .delivered e ∈ between := by
    refine Classical.byContradiction fun hnone => ?_
    have hw := hbetween.warned_of_not_delivered hfirst fun e he => hnone ⟨e, he⟩
    rw [hend.1] at hw
    cases hw
  obtain ⟨before, after, rfl⟩ := List.append_of_mem he
  refine ⟨e, before, after, rfl, ?_⟩
  obtain ⟨_, found, -, hfound, hafter⟩ := hbetween.at
  have howed : found.mode.owed = [e.values] := by
    cases hfound
    rfl
  exact hafter.resumed_of_owed howed hend.2

end

end Loop

end ComputerHost.Host

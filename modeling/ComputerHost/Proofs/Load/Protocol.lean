import ComputerHost.Load.Operation

/-!
# The protocol between a load and its owner

A load and its owner are two parties that move whenever they can. `Move` is one move of either, built
from the functions that `Bridge.step` and `Bridge.cancel` consist of; `Run` is any number of moves in
any order, with the list of what happened. The owner calls `step` and `cancel` as it likes; dropping a
load is cancelling it for the last time.

Results:
1. `works_iff`: the moves of the worker, one constructor of `Works` for each.
2. `beginStep_some`, `beginStep_none`, `receive?_iff`, `join?_iff`: the moves of the owner.
3. `run_step`, `run_cancel`: the calls `Bridge.step` and `Bridge.cancel` are runs.
-/

namespace ComputerHost.Load

/-- What the owner of a load is at. -/
inductive Owner where
  | free
  /-- Waiting for the answer to a step. -/
  | stepping
  /-- Waiting for the worker of a load that was given up to leave. -/
  | cancelling
deriving DecidableEq, Repr

/-- Something that happens in a load. -/
inductive Occurrence where
  /-- The worker goes on without touching anything that it shares. -/
  | worked
  /-- The worker resumes the supplier. -/
  | supplied (args : List Value)
  | posted (message : WorkerMessage)
  /-- The owner begins a step while the load is in this phase. Some steps are answered at once. -/
  | stepped (phase : Phase) (values : List Value) (atOnce : Option Progress)
  | answered (progress : Progress)
  /-- The owner cancels or drops the load. -/
  | gaveUp
  /-- The owner that gave the load up has seen the worker out. -/
  | joined

/-- A load and what its owner is at. -/
structure Protocol (σ τ : Type) where
  bridge : Bridge σ τ
  owner : Owner

/-- What happens when the worker moves. -/
def Worker.occurrence {σ : Type} : Worker σ → Occurrence
  | .supplying _ args => .supplied args
  | .posting _ values => .posted (.yielded values)
  | .reporting result => .posted (.finished result)
  | .parsing _ | .parked _ | .leaving | .exited => .worked

variable {σ τ : Type} (parser : Parser σ) (supplier : Supplier τ)

namespace Protocol

/-- A load that has just been started, with an owner that has not looked at it. -/
def start (name : String) (t : τ) : Protocol σ τ := ⟨Bridge.start parser name t, .free⟩

/-- One move of the worker or of the owner, and what happens. -/
inductive Move : Protocol σ τ → Occurrence → Protocol σ τ → Prop
  | works {b b' : Bridge σ τ} {o : Owner} :
      b.workerMove? parser supplier = some b' → Move ⟨b, o⟩ b.worker.occurrence ⟨b', o⟩
  | replies {b b' : Bridge σ τ} {values : List Value} {p : Progress} :
      b.beginStep values = (some p, b') →
      Move ⟨b, .free⟩ (.stepped b.phase values (some p)) ⟨b', .free⟩
  | begins {b b' : Bridge σ τ} {values : List Value} :
      b.beginStep values = (none, b') →
      Move ⟨b, .free⟩ (.stepped b.phase values none) ⟨b', .stepping⟩
  | receives {b b' : Bridge σ τ} {p : Progress} :
      b.receive? = some (p, b') → Move ⟨b, .stepping⟩ (.answered p) ⟨b', .free⟩
  | givesUp {b : Bridge σ τ} : Move ⟨b, .free⟩ .gaveUp ⟨b.beginCancel, .cancelling⟩
  | joins {b b' : Bridge σ τ} : b.join? = some b' → Move ⟨b, .cancelling⟩ .joined ⟨b', .free⟩

/-- Moves one after the other, in any order that the two parties allow. -/
inductive Run : Protocol σ τ → List Occurrence → Protocol σ τ → Prop
  | refl (p : Protocol σ τ) : Run p [] p
  | snoc {p q r : Protocol σ τ} {trace : List Occurrence} {o : Occurrence} :
      Run p trace q → Move parser supplier q o r → Run p (trace ++ [o]) r

end Protocol

/-! ## 1. The moves of the worker -/

/-- The moves of the worker. The constructors are named for what it does. -/
inductive Works : Bridge σ τ → Bridge σ τ → Prop
  | concludes {b : Bridge σ τ} {s : σ} {result : Except LoadError Value} :
      b.worker = .parsing s → parser.verdict? s = some (.loaded result) → b.abandoned = false →
      Works b { b with worker := .reporting result }
  | fallsSilent {b : Bridge σ τ} {s : σ} {result : Except LoadError Value} :
      b.worker = .parsing s → parser.verdict? s = some (.loaded result) → b.abandoned = true →
      Works b { b with worker := .leaving }
  | breaks {b : Bridge σ τ} {s : σ} {message : String} :
      b.worker = .parsing s → parser.verdict? s = some (.panicked message) →
      Works b { b with worker := .leaving }
  | asks {b : Bridge σ τ} {s : σ} :
      b.worker = .parsing s → parser.verdict? s = none → b.abandoned = false →
      Works b { b with worker := .supplying s [] }
  | refuses {b : Bridge σ τ} {s : σ} :
      b.worker = .parsing s → parser.verdict? s = none → b.abandoned = true →
      Works b { b with worker := .parsing (parser.receive s (.error .cancelled)) }
  | returns {b : Bridge σ τ} {s : σ} {args : List Value} {value : Value} {t : τ} :
      b.worker = .supplying s args → supplier.resume b.supplier args = (.returned value, t) →
      Works b { b with supplier := t, worker := .parsing (parser.receive s (pieceOf value)) }
  | fails {b : Bridge σ τ} {s : σ} {args : List Value} {message : String} {t : τ} :
      b.worker = .supplying s args → supplier.resume b.supplier args = (.failed message, t) →
      Works b { b with
        supplier := t, worker := .parsing (parser.receive s (.error (.reader message))) }
  | suspends {b : Bridge σ τ} {s : σ} {args values : List Value} {t : τ} :
      b.worker = .supplying s args → supplier.resume b.supplier args = (.yielded values, t) →
      Works b { b with supplier := t, worker := .posting s values }
  | panics {b : Bridge σ τ} {s : σ} {args : List Value} {message : String} {t : τ} :
      b.worker = .supplying s args → supplier.resume b.supplier args = (.panicked message, t) →
      Works b { b with supplier := t, worker := .leaving }
  | posts {b : Bridge σ τ} {s : σ} {values : List Value} :
      b.worker = .posting s values →
      Works b { b with worker := .parked s, toOwner := b.toOwner ++ [.yielded values] }
  | resumes {b : Bridge σ τ} {s : σ} {values : List Value} {rest : List OwnerMessage} :
      b.worker = .parked s → b.toWorker = .resume values :: rest →
      Works b { b with worker := .supplying s values, toWorker := rest }
  | abandons {b : Bridge σ τ} {s : σ} {rest : List OwnerMessage} :
      b.worker = .parked s → b.toWorker = .cancel :: rest →
      Works b { b with
        worker := .parsing (parser.receive s (.error .cancelled)), abandoned := true,
        toWorker := rest }
  | reports {b : Bridge σ τ} {result : Except LoadError Value} :
      b.worker = .reporting result →
      Works b { b with worker := .leaving, toOwner := b.toOwner ++ [.finished result] }
  | exits {b : Bridge σ τ} : b.worker = .leaving → Works b { b with worker := .exited }

variable {parser supplier}

theorem works_of_workerMove? {b b' : Bridge σ τ} (h : b.workerMove? parser supplier = some b') :
    Works parser supplier b b' := by
  rw [Bridge.workerMove?] at h
  cases hw : b.worker with
  | parsing s =>
    simp only [hw] at h
    cases hv : parser.verdict? s with
    -- A question of the parser is put to the supplier, unless the load was given up.
    | none =>
      simp only [hv, Option.some.injEq] at h
      subst h
      cases ha : b.abandoned with
      | false => simpa [ha] using (Works.asks hw hv ha : Works parser supplier b _)
      | true => simpa [ha] using (Works.refuses hw hv ha : Works parser supplier b _)
    | some v =>
      cases v with
      | loaded result =>
        simp only [hv, Option.some.injEq] at h
        subst h
        cases ha : b.abandoned with
        | false => simpa [ha] using (Works.concludes hw hv ha : Works parser supplier b _)
        | true => simpa [ha, Bridge.leave] using (Works.fallsSilent hw hv ha : Works parser supplier b _)
      | panicked message =>
        simp only [hv, Option.some.injEq] at h
        subst h
        exact .breaks hw hv
  | supplying s args =>
    simp only [hw] at h
    rcases hr : supplier.resume b.supplier args with ⟨supply, t⟩
    cases supply <;> simp only [hr, Option.some.injEq] at h <;> subst h
    · exact .suspends hw hr
    · exact .returns hw hr
    · exact .fails hw hr
    · exact .panics hw hr
  | posting s values =>
    simp only [hw, Option.some.injEq] at h
    subst h
    exact .posts hw
  | parked s =>
    simp only [hw] at h
    cases hc : b.toWorker with
    | nil => simp [hc] at h
    | cons message rest =>
      cases message <;> simp only [hc, Option.some.injEq] at h <;> subst h
      · exact .resumes hw hc
      · exact .abandons hw hc
  | reporting result =>
    simp only [hw, Option.some.injEq] at h
    subst h
    exact .reports hw
  | leaving =>
    simp only [hw, Option.some.injEq] at h
    subst h
    exact .exits hw
  | exited => simp [hw] at h

/-- The moves of the worker are those of `Works`. -/
theorem works_iff {b b' : Bridge σ τ} :
    b.workerMove? parser supplier = some b' ↔ Works parser supplier b b' := by
  refine ⟨works_of_workerMove?, fun h => ?_⟩
  rw [Bridge.workerMove?]
  cases h <;> simp_all [Bridge.leave]

/-- The worker is at rest when it has left, or when it is parked and nothing has been sent. -/
theorem workerMove?_eq_none_iff {b : Bridge σ τ} :
    b.workerMove? parser supplier = none ↔
      b.worker = .exited ∨ ∃ s, b.worker = .parked s ∧ b.toWorker = [] := by
  rw [Bridge.workerMove?]
  cases hw : b.worker with
  | parsing s =>
    cases hv : parser.verdict? s with
    | none => simp [hv]
    | some v => cases v <;> simp [hv]
  | parked s =>
    cases hc : b.toWorker with
    | nil => simp
    | cons message _ => cases message <;> simp
  | _ => simp

/-- A worker at rest stays where it is. -/
theorem runWorker_of_rest {n : Nat} {b : Bridge σ τ}
    (h : (b.runWorker parser supplier n).workerMove? parser supplier = none) {fuel : Nat}
    (hle : n ≤ fuel) : b.runWorker parser supplier fuel = b.runWorker parser supplier n := by
  induction n generalizing b fuel with
  | zero =>
    rw [Bridge.runWorker] at h ⊢
    cases fuel <;> simp [Bridge.runWorker, h]
  | succ n ih =>
    obtain ⟨m, rfl⟩ : ∃ m, fuel = m + 1 := ⟨fuel - 1, by omega⟩
    rw [Bridge.runWorker] at h
    rw [Bridge.runWorker, Bridge.runWorker]
    cases hm : b.workerMove? parser supplier with
    | none => rfl
    | some b' =>
      rw [hm] at h
      exact ih h (by omega)

/-! ## 2. The moves of the owner -/

@[simp] theorem hasExited_iff {b : Bridge σ τ} : b.hasExited = true ↔ b.worker = .exited := by
  rw [Bridge.hasExited]
  cases b.worker <;> simp

/-- A step is answered at once if the load is over, or if the worker left while it was suspended. -/
theorem beginStep_some {b b' : Bridge σ τ} {values : List Value} {p : Progress}
    (h : b.beginStep values = (some p, b')) :
    p = .cancelled ∧ ((b.phase = .workerYielded ∧ b.worker = .exited ∧ b' = b.closed .cancelled) ∨
      ((b.phase = .workerDone ∨ b.phase = .cancelled) ∧ b' = b)) := by
  rw [Bridge.beginStep] at h
  cases hp : b.phase <;> simp only [hp] at h
  case idle | workerRunning => simp at h
  case workerYielded =>
    cases he : b.hasExited with
    | true =>
      simp only [he, if_true, Prod.mk.injEq, Option.some.injEq] at h
      exact ⟨h.1.symm, .inl ⟨rfl, hasExited_iff.mp he, h.2.symm⟩⟩
    | false => simp [he] at h
  case workerDone | cancelled =>
    simp only [Prod.mk.injEq, Option.some.injEq] at h
    exact ⟨h.1.symm, .inr ⟨by simp, h.2.symm⟩⟩

/-- Otherwise the owner waits, after sending the values if the load is suspended. -/
theorem beginStep_none {b b' : Bridge σ τ} {values : List Value}
    (h : b.beginStep values = (none, b')) :
    (b.phase = .idle ∧ b' = { b with phase := .workerRunning }) ∨
    (b.phase = .workerYielded ∧ b.worker ≠ .exited ∧
      b' = { b with toWorker := b.toWorker ++ [.resume values], roundTrips := b.roundTrips + 1,
                    phase := .workerRunning }) ∨
    (b.phase = .workerRunning ∧ b' = b) := by
  rw [Bridge.beginStep] at h
  cases hp : b.phase <;> simp only [hp] at h
  case idle =>
    simp only [Prod.mk.injEq, true_and] at h
    exact .inl ⟨rfl, h.symm⟩
  case workerRunning =>
    simp only [Prod.mk.injEq, true_and] at h
    exact .inr (.inr ⟨rfl, h.symm⟩)
  case workerYielded =>
    cases he : b.hasExited with
    | true => simp [he] at h
    | false =>
      simp only [he, Bool.false_eq_true, if_false, Prod.mk.injEq, true_and] at h
      refine .inr (.inl ⟨rfl, fun hw => ?_, h.symm⟩)
      rw [hasExited_iff.mpr hw] at he
      cases he
  case workerDone | cancelled => simp at h

/-- What a waiting owner is answered. -/
inductive Receives : Bridge σ τ → Progress → Bridge σ τ → Prop
  | yielded {b : Bridge σ τ} {values : List Value} {rest : List WorkerMessage} :
      b.toOwner = .yielded values :: rest →
      Receives b (.yielded values) { b with toOwner := rest, phase := .workerYielded }
  | finished {b : Bridge σ τ} {result : Except LoadError Value} {rest : List WorkerMessage} :
      b.toOwner = .finished result :: rest → b.worker = .exited →
      Receives b (.done result) { b with toOwner := rest, phase := .workerDone, joined := true }
  | broken {b : Bridge σ τ} :
      b.toOwner = [] → b.worker = .exited →
      Receives b .cancelled { b with phase := .cancelled, joined := true }

theorem receive?_iff {b b' : Bridge σ τ} {p : Progress} :
    b.receive? = some (p, b') ↔ Receives b p b' := by
  constructor
  · intro h
    rw [Bridge.receive?] at h
    cases ho : b.toOwner with
    | nil =>
      cases he : b.hasExited with
      | false => simp [ho, he] at h
      | true =>
        simp only [ho, he, if_true, Option.some.injEq, Prod.mk.injEq] at h
        obtain ⟨rfl, rfl⟩ := h
        exact .broken ho (hasExited_iff.mp he)
    | cons message rest =>
      cases message with
      | yielded values =>
        simp only [ho, Option.some.injEq, Prod.mk.injEq] at h
        obtain ⟨rfl, rfl⟩ := h
        exact .yielded ho
      | finished result =>
        cases he : b.hasExited with
        | false => simp [ho, he] at h
        | true =>
          simp only [ho, he, if_true, Option.some.injEq, Prod.mk.injEq] at h
          obtain ⟨rfl, rfl⟩ := h
          exact .finished ho (hasExited_iff.mp he)
  · intro h
    rw [Bridge.receive?]
    cases h with
    | yielded ho => simp [ho]
    | finished ho hw | broken ho hw => simp [ho, hasExited_iff.mpr hw, Bridge.closed]

/-- The owner that gave a load up goes on once the load is over or the worker has left. -/
theorem join?_iff {b b' : Bridge σ τ} :
    b.join? = some b' ↔
      (b.joined = true ∧ b' = b) ∨
      (b.joined = false ∧ b.worker = .exited ∧ b' = b.closed .cancelled) := by
  rw [Bridge.join?]
  by_cases hj : b.joined = true
  · simp only [hj, if_true, Option.some.injEq, true_and, Bool.true_eq_false, false_and, or_false]
    exact eq_comm
  · by_cases he : b.hasExited = true
    · simp only [hj, he, hasExited_iff.mp he, Bool.false_eq_true, if_false, if_true,
        Option.some.injEq, false_and, true_and, false_or]
      exact eq_comm
    · have hw : b.worker ≠ .exited := fun hw => he (hasExited_iff.mpr hw)
      simp [hj, he, hw]

/-! ## 3. Runs -/

namespace Occurrence

/-- The values of a step that begins. -/
def step? : Occurrence → Option (List Value)
  | .stepped _ values _ => some values
  | _ => none

/-- The answer to a step. -/
def answer? : Occurrence → Option Progress
  | .stepped _ _ atOnce => atOnce
  | .answered p => some p
  | _ => none

/-- What the supplier is given. -/
def given? : Occurrence → Option (List Value)
  | .supplied args => some args
  | _ => none

/-- The values that the owner sends. -/
def sent? : Occurrence → Option (List Value)
  | .stepped .workerYielded values none => some values
  | _ => none

/-- What the worker posts. -/
def post? : Occurrence → Option WorkerMessage
  | .posted message => some message
  | _ => none

/-- Is this a move of the worker? -/
def isWork : Occurrence → Bool
  | .worked | .supplied _ | .posted _ => true
  | _ => false

/-- Does a step begin in the phase in which the supplier is suspended? -/
def isRoundTrip : Occurrence → Bool
  | .stepped .workerYielded _ _ => true
  | _ => false

/-- Does the owner give the load up? -/
def isGivingUp : Occurrence → Bool
  | .gaveUp => true
  | _ => false

end Occurrence

/-- The values of the steps in a run, in order. -/
def stepsOf (trace : List Occurrence) : List (List Value) := trace.filterMap Occurrence.step?

/-- The answers to the steps in a run, in order. -/
def answersOf (trace : List Occurrence) : List Progress := trace.filterMap Occurrence.answer?

/-- What the supplier was given in a run, in order. -/
def givenOf (trace : List Occurrence) : List (List Value) := trace.filterMap Occurrence.given?

/-- The values that the owner sent in a run, in order. -/
def sentOf (trace : List Occurrence) : List (List Value) := trace.filterMap Occurrence.sent?

/-- What the worker posted in a run, in order. -/
def postsOf (trace : List Occurrence) : List WorkerMessage := trace.filterMap Occurrence.post?

section
variable (first second : List Occurrence) (o : Occurrence)

@[simp] theorem stepsOf_append : stepsOf (first ++ second) = stepsOf first ++ stepsOf second :=
  List.filterMap_append

@[simp] theorem stepsOf_nil : stepsOf [] = [] := rfl

@[simp] theorem stepsOf_cons : stepsOf (o :: second) = o.step?.toList ++ stepsOf second := by
  cases h : o.step? <;> simp [stepsOf, h]

@[simp] theorem answersOf_append :
    answersOf (first ++ second) = answersOf first ++ answersOf second :=
  List.filterMap_append

@[simp] theorem answersOf_nil : answersOf [] = [] := rfl

@[simp] theorem answersOf_cons : answersOf (o :: second) = o.answer?.toList ++ answersOf second := by
  cases h : o.answer? <;> simp [answersOf, h]

@[simp] theorem givenOf_append : givenOf (first ++ second) = givenOf first ++ givenOf second :=
  List.filterMap_append

@[simp] theorem givenOf_nil : givenOf [] = [] := rfl

@[simp] theorem givenOf_cons : givenOf (o :: second) = o.given?.toList ++ givenOf second := by
  cases h : o.given? <;> simp [givenOf, h]

@[simp] theorem sentOf_append : sentOf (first ++ second) = sentOf first ++ sentOf second :=
  List.filterMap_append

@[simp] theorem sentOf_nil : sentOf [] = [] := rfl

@[simp] theorem sentOf_cons : sentOf (o :: second) = o.sent?.toList ++ sentOf second := by
  cases h : o.sent? <;> simp [sentOf, h]

@[simp] theorem postsOf_append : postsOf (first ++ second) = postsOf first ++ postsOf second :=
  List.filterMap_append

@[simp] theorem postsOf_nil : postsOf [] = [] := rfl

@[simp] theorem postsOf_cons : postsOf (o :: second) = o.post?.toList ++ postsOf second := by
  cases h : o.post? <;> simp [postsOf, h]

end

@[simp] theorem isWork_occurrence (w : Worker σ) : w.occurrence.isWork = true := by
  cases w <;> rfl

@[simp] theorem step?_occurrence (w : Worker σ) : w.occurrence.step? = none := by
  cases w <;> rfl

@[simp] theorem answer?_occurrence (w : Worker σ) : w.occurrence.answer? = none := by
  cases w <;> rfl

@[simp] theorem sent?_occurrence (w : Worker σ) : w.occurrence.sent? = none := by
  cases w <;> rfl

namespace Protocol

theorem run_append {p q r : Protocol σ τ} {first second : List Occurrence}
    (h : Run parser supplier p first q) (h' : Run parser supplier q second r) :
    Run parser supplier p (first ++ second) r := by
  induction h' with
  | refl => simpa using h
  | snoc _ hm ih => simpa using ih.snoc hm

theorem run_single {p q : Protocol σ τ} {o : Occurrence} (h : Move parser supplier p o q) :
    Run parser supplier p [o] q :=
  .snoc (.refl p) h

/-- Letting the worker move is a run, whatever the owner is at. -/
theorem run_runWorker (parser : Parser σ) (supplier : Supplier τ) (fuel : Nat) (b : Bridge σ τ)
    (o : Owner) :
    ∃ trace, Run parser supplier ⟨b, o⟩ trace ⟨b.runWorker parser supplier fuel, o⟩ ∧
      ∀ x ∈ trace, x.isWork = true := by
  induction fuel generalizing b with
  | zero => exact ⟨[], .refl _, by simp⟩
  | succ n ih =>
    rw [Bridge.runWorker]
    cases hm : b.workerMove? parser supplier with
    | none => exact ⟨[], .refl _, by simp⟩
    | some b' =>
      obtain ⟨trace, hr, hall⟩ := ih b'
      refine ⟨b.worker.occurrence :: trace, run_append (run_single (.works hm)) hr, ?_⟩
      simpa using hall

theorem run_nil {p q : Protocol σ τ} (h : Run parser supplier p [] q) : q = p := by
  generalize hl : [] = trace at h
  cases h with
  | refl => rfl
  | snoc => simp at hl

/-- The first move of a run. -/
theorem run_cons {p r : Protocol σ τ} {o : Occurrence} {trace : List Occurrence}
    (h : Run parser supplier p (o :: trace) r) :
    ∃ q, Move parser supplier p o q ∧ Run parser supplier q trace r := by
  generalize hl : o :: trace = list at h
  induction h generalizing trace with
  | refl => simp at hl
  | @snoc q r tr x hrun hm ih =>
    cases tr with
    | nil =>
      obtain ⟨rfl, rfl⟩ : o = x ∧ trace = [] := by simpa using hl
      obtain rfl := run_nil hrun
      exact ⟨r, hm, .refl r⟩
    | cons y ys =>
      obtain ⟨rfl, rfl⟩ : o = y ∧ trace = ys ++ [x] := by simpa using hl
      obtain ⟨q', hfirst, hrest⟩ := ih rfl
      exact ⟨q', hfirst, hrest.snoc hm⟩

/-- The worker alone cannot move longer than it takes to come to rest. -/
theorem length_le_of_rest {n : Nat} {b : Bridge σ τ} {o : Owner} {q : Protocol σ τ}
    {trace : List Occurrence} (h : Run parser supplier ⟨b, o⟩ trace q)
    (hall : ∀ x ∈ trace, x.isWork = true)
    (hn : (b.runWorker parser supplier n).workerMove? parser supplier = none) :
    trace.length ≤ n := by
  induction trace generalizing b n with
  | nil => exact Nat.zero_le n
  | cons x trace ih =>
    obtain ⟨r, hm, hrest⟩ := run_cons h
    have hx := hall x (by simp)
    cases hm with
    | @works _ b' _ hmove =>
      cases n with
      | zero => simp [Bridge.runWorker, hmove] at hn
      | succ n =>
        rw [Bridge.runWorker, hmove] at hn
        have := ih hrest (fun y hy => hall y (by simp [hy])) hn
        simpa using this
    | replies | begins | receives | givesUp | joins => simp [Occurrence.isWork] at hx

theorem stepsOf_work {trace : List Occurrence} (h : ∀ x ∈ trace, x.isWork = true) :
    stepsOf trace = [] := by
  refine List.filterMap_eq_nil_iff.mpr fun x hx => ?_
  have := h x hx
  cases x <;> simp_all [Occurrence.isWork, Occurrence.step?]

theorem answersOf_work {trace : List Occurrence} (h : ∀ x ∈ trace, x.isWork = true) :
    answersOf trace = [] := by
  refine List.filterMap_eq_nil_iff.mpr fun x hx => ?_
  have := h x hx
  cases x <;> simp_all [Occurrence.isWork, Occurrence.answer?]

/-- A call of `step` is a run in which one step begins and is answered. -/
theorem run_step {fuel : Nat} {b b' : Bridge σ τ} {values : List Value} {p : Progress}
    (h : b.step parser supplier fuel values = some (p, b')) :
    ∃ trace, Run parser supplier ⟨b, .free⟩ trace ⟨b', .free⟩ ∧ stepsOf trace = [values] ∧
      answersOf trace = [p] ∧ ∀ x ∈ trace, x.isGivingUp = false := by
  rw [Bridge.step] at h
  rcases hb : b.beginStep values with ⟨atOnce, b₁⟩
  cases atOnce with
  | some q =>
    simp only [hb, Option.some.injEq, Prod.mk.injEq] at h
    obtain ⟨rfl, rfl⟩ := h
    exact ⟨_, run_single (.replies hb), rfl, rfl, by simp [Occurrence.isGivingUp]⟩
  | none =>
    simp only [hb] at h
    obtain ⟨trace, hr, hall⟩ := run_runWorker parser supplier fuel b₁ .stepping
    refine ⟨_, run_append (run_single (.begins hb)) (hr.snoc (.receives h)), ?_, ?_, ?_⟩
    · simp [stepsOf_work hall, Occurrence.step?]
    · simp [answersOf_work hall, Occurrence.answer?]
    · intro x hx
      simp only [List.mem_append, List.mem_singleton] at hx
      rcases hx with rfl | hx | rfl
      · rfl
      · have := hall x hx
        cases x <;> simp_all [Occurrence.isWork, Occurrence.isGivingUp]
      · rfl

/-- A call of `cancel` is a run in which only the worker moves until the owner has seen it out. -/
theorem run_cancel {fuel : Nat} {b b' : Bridge σ τ}
    (h : b.cancel parser supplier fuel = some b') :
    ∃ trace, Run parser supplier ⟨b, .free⟩ (.gaveUp :: trace ++ [.joined]) ⟨b', .free⟩ ∧
      ∀ x ∈ trace, x.isWork = true := by
  rw [Bridge.cancel] at h
  cases hj : b.joined with
  | true =>
    simp only [hj, if_true, Option.some.injEq] at h
    subst h
    have hc : b.beginCancel = b := by simp [Bridge.beginCancel, hj]
    have hg : Run parser supplier ⟨b, .free⟩ [.gaveUp] ⟨b, .cancelling⟩ := by
      simpa [hc] using run_single (Move.givesUp : Move parser supplier ⟨b, .free⟩ _ _)
    exact ⟨[], hg.snoc (.joins (by simp [Bridge.join?, hj])), by simp⟩
  | false =>
    simp only [hj, Bool.false_eq_true, if_false] at h
    obtain ⟨trace, hr, hall⟩ := run_runWorker parser supplier fuel b.beginCancel .cancelling
    have hrun := run_append (run_single .givesUp) (hr.snoc (.joins h))
    exact ⟨trace, by simpa using hrun, hall⟩

end Protocol

end ComputerHost.Load

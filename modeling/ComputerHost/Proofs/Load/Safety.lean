import ComputerHost.Proofs.Load.Protocol

/-!
# Safety of the load protocol

The worker of a load runs ahead until its supplier first suspends, so what the owner does can cross what
the worker posts. `Situation` lists how the two parties can stand to each other: it is the invariant of
all runs (`situation_run`), and everything else is read off it.

Results:
1. `situation_move`: every move leads from a situation to a situation.
2. `situation_progress`: whenever the owner waits, it can be answered or the worker can move.
3. `silent_run`: a worker that has seen a cancellation resumes nothing and posts nothing any more.
4. `exits_of_givingUp`: a load that is given up comes to its end if the parser and the supplier do.
5. `protocol_safe`: all of it together.
-/

namespace ComputerHost.Load

variable {σ τ : Type} {parser : Parser σ} {supplier : Supplier τ}

/-! ## The situations of a load -/

/-- What the worker has posted and the owner has not taken, as long as the owner sends nothing. -/
def Ahead (b : Bridge σ τ) : Prop :=
  match b.worker with
  | .parsing _ | .supplying _ _ | .posting _ _ | .reporting _ => b.toOwner = []
  | .parked _ => ∃ values, b.toOwner = [.yielded values]
  | .leaving | .exited => b.toOwner = [] ∨ ∃ result, b.toOwner = [.finished result]

/-- The load is given up and the worker has not seen it yet. What it posts may cross the message. -/
structure Crossing (b : Bridge σ τ) : Prop where
  notJoined : b.joined = false
  notAbandoned : b.abandoned = false
  toWorker : b.toWorker = [.cancel]
  posted : Ahead b ∨ ∃ s, b.worker = .parked s ∧ b.toOwner = []

/-- The worker has seen that the load is given up. -/
structure Abandoned (b : Bridge σ τ) : Prop where
  notJoined : b.joined = false
  abandoned : b.abandoned = true
  toWorker : b.toWorker = []
  posted : b.toOwner.length ≤ 1
  silent : (∃ s, b.worker = .parsing s) ∨ b.worker = .leaving ∨ b.worker = .exited

/-- The owner has seen the worker out. -/
structure Closed (b : Bridge σ τ) : Prop where
  joined : b.joined = true
  exited : b.worker = .exited
  phase : b.phase = .workerDone ∨ b.phase = .cancelled
  toOwner : b.toOwner.length ≤ 1
  toWorker : b.toWorker.length ≤ 1

/-- How a load and its owner can stand to each other. -/
inductive Situation : Protocol σ τ → Prop
  /-- Nobody has waited for the worker. -/
  | unwatched {b : Bridge σ τ} :
      b.phase = .idle → b.joined = false → b.abandoned = false → b.toWorker = [] → Ahead b →
      Situation ⟨b, .free⟩
  /-- The owner waits for the next message. -/
  | watched {b : Bridge σ τ} :
      b.phase = .workerRunning → b.joined = false → b.abandoned = false → b.toWorker = [] →
      Ahead b → Situation ⟨b, .stepping⟩
  /-- The owner has sent values that the worker has not taken. -/
  | resumed {b : Bridge σ τ} {s : σ} {values : List Value} :
      b.phase = .workerRunning → b.joined = false → b.abandoned = false →
      b.toWorker = [.resume values] → b.worker = .parked s → b.toOwner = [] →
      Situation ⟨b, .stepping⟩
  /-- The worker waits for the owner to go on. -/
  | suspended {b : Bridge σ τ} {s : σ} :
      b.phase = .workerYielded → b.joined = false → b.abandoned = false → b.toWorker = [] →
      b.worker = .parked s → b.toOwner = [] → Situation ⟨b, .free⟩
  | crossing {b : Bridge σ τ} : Crossing b → Situation ⟨b, .cancelling⟩
  | abandoned {b : Bridge σ τ} : Abandoned b → Situation ⟨b, .cancelling⟩
  | closed {b : Bridge σ τ} {o : Owner} : Closed b → o ≠ .stepping → Situation ⟨b, o⟩

theorem situation_start (name : String) (t : τ) : Situation (Protocol.start parser name t) :=
  .unwatched rfl rfl rfl rfl rfl

/-! ## 1. Every move leads from a situation to a situation -/

/-- The moves of the worker leave alone what belongs to the owner. -/
theorem works_frame {b b' : Bridge σ τ} (h : Works parser supplier b b') :
    b'.phase = b.phase ∧ b'.joined = b.joined ∧ b'.roundTrips = b.roundTrips := by
  cases h <;> exact ⟨rfl, rfl, rfl⟩

theorem ahead_works {b b' : Bridge σ τ} (h : Works parser supplier b b') (ha : Ahead b)
    (hc : b.toWorker = []) (hn : b.abandoned = false) :
    Ahead b' ∧ b'.toWorker = [] ∧ b'.abandoned = false := by
  cases h <;> simp_all [Ahead]

theorem crossing_works {b b' : Bridge σ τ} (h : Works parser supplier b b') (hx : Crossing b) :
    Crossing b' ∨ Abandoned b' := by
  obtain ⟨hj, hn, hc, hp⟩ := hx
  cases h with
  | fallsSilent _ _ ha | refuses _ _ ha => simp [hn] at ha
  | resumes _ hm => simp [hc] at hm
  | abandons hw hm =>
    rw [hc] at hm
    obtain ⟨-, rfl⟩ : OwnerMessage.cancel = .cancel ∧ [] = _ := by simpa using hm
    refine .inr ⟨hj, rfl, rfl, ?_, .inl ⟨_, rfl⟩⟩
    rcases hp with hp | ⟨_, _, hp⟩
    · rw [Ahead, hw] at hp
      obtain ⟨values, hp⟩ := hp
      simp [hp]
    · simp [hp]
  | _ =>
    refine .inl ⟨hj, hn, hc, ?_⟩
    rcases hp with hp | ⟨_, hw, hp⟩
    · simp_all [Ahead]
    · simp_all

/-- The worker that has seen a cancellation only winds up its parse. -/
theorem abandoned_works {b b' : Bridge σ τ} (h : Works parser supplier b b') (hx : Abandoned b) :
    Abandoned b' ∧ b.worker.occurrence = .worked := by
  obtain ⟨hj, ha, hc, hp, hs⟩ := hx
  cases h with
  | concludes _ _ hn | asks _ _ hn => simp [ha] at hn
  | resumes _ hm | abandons _ hm => simp [hc] at hm
  | fallsSilent hw | breaks hw | exits hw =>
    exact ⟨⟨hj, ha, hc, hp, by simp⟩, by rw [hw]; rfl⟩
  | refuses hw => exact ⟨⟨hj, ha, hc, hp, .inl ⟨_, rfl⟩⟩, by rw [hw]; rfl⟩
  | returns hw | fails hw | suspends hw | panics hw | posts hw | reports hw => simp [hw] at hs

theorem situation_works {b b' : Bridge σ τ} {o : Owner} (h : Works parser supplier b b')
    (hs : Situation ⟨b, o⟩) : Situation ⟨b', o⟩ := by
  obtain ⟨hphase, hjoined, -⟩ := works_frame h
  cases hs with
  | unwatched hp hj hn hc ha =>
    obtain ⟨ha', hc', hn'⟩ := ahead_works h ha hc hn
    exact .unwatched (hphase.trans hp) (hjoined.trans hj) hn' hc' ha'
  | watched hp hj hn hc ha =>
    obtain ⟨ha', hc', hn'⟩ := ahead_works h ha hc hn
    exact .watched (hphase.trans hp) (hjoined.trans hj) hn' hc' ha'
  | resumed hp hj hn hc hw ho =>
    cases h with
    | resumes _ hm =>
      rw [hc] at hm
      obtain ⟨-, rfl⟩ : _ ∧ [] = _ := by simpa using hm
      exact .watched hp hj hn rfl ho
    | _ => simp_all
  | suspended hp hj hn hc hw ho => cases h <;> simp_all
  | crossing hx => exact (crossing_works h hx).elim .crossing .abandoned
  | abandoned hx => exact .abandoned (abandoned_works h hx).1
  | closed hx _ =>
    have := hx.exited
    cases h <;> simp_all

theorem situation_begins {b b' : Bridge σ τ} {values : List Value}
    (hb : b.beginStep values = (none, b')) (hs : Situation ⟨b, .free⟩) :
    Situation ⟨b', .stepping⟩ := by
  rcases beginStep_none hb with ⟨hp, rfl⟩ | ⟨hp, hw, rfl⟩ | ⟨hp, rfl⟩
  · cases hs with
    | unwatched _ hj hn hc ha => exact .watched rfl hj hn hc ha
    | suspended hp' => simp [hp] at hp'
    | closed hx => simpa [hp] using hx.phase
  · cases hs with
    | unwatched hp' => simp [hp] at hp'
    | suspended _ hj hn hc hw ho =>
      have hsent : b.toWorker ++ [.resume values] = [.resume values] := by simp [hc]
      exact .resumed rfl hj hn hsent hw ho
    | closed hx => exact absurd hx.exited hw
  · cases hs with
    | unwatched hp' | suspended hp' => simp [hp] at hp'
    | closed hx => simpa [hp] using hx.phase

theorem situation_receives {b b' : Bridge σ τ} {p : Progress} (hr : Receives b p b')
    (hs : Situation ⟨b, .stepping⟩) : Situation ⟨b', .free⟩ := by
  cases hs with
  | watched hp hj hn hc ha =>
    cases hr with
    | @yielded values rest ho =>
      -- a worker that has posted a suspension is parked
      cases hw : b.worker <;> simp only [Ahead, hw, ho] at ha
      case parked s =>
        obtain ⟨_, ha⟩ := ha
        obtain ⟨-, rfl⟩ : _ ∧ rest = [] := by simpa using ha
        exact .suspended rfl hj hn hc rfl rfl
      all_goals simp at ha
    | @finished result rest ho hw =>
      rw [Ahead, hw, ho] at ha
      obtain rfl : rest = [] := by simpa using ha
      exact .closed ⟨rfl, hw, .inl rfl, by simp, by simp [hc]⟩ (by simp)
    | broken ho hw => exact .closed ⟨rfl, hw, .inr rfl, by simp [ho], by simp [hc]⟩ (by simp)
  | resumed hp hj hn hc hw ho => cases hr <;> simp_all
  | closed _ ho => exact absurd rfl ho

theorem situation_givesUp {b : Bridge σ τ} (hs : Situation ⟨b, .free⟩) :
    Situation ⟨b.beginCancel, .cancelling⟩ := by
  cases hs with
  | unwatched _ hj hn hc ha =>
    rw [Bridge.beginCancel, if_neg (by simp [hj])]
    exact .crossing ⟨hj, hn, by simp [hc], .inl ha⟩
  | suspended _ hj hn hc hw ho =>
    rw [Bridge.beginCancel, if_neg (by simp [hj])]
    exact .crossing ⟨hj, hn, by simp [hc], .inr ⟨_, hw, ho⟩⟩
  | closed hx _ =>
    rw [Bridge.beginCancel, if_pos hx.joined]
    exact .closed hx (by simp)

theorem situation_joins {b b' : Bridge σ τ} (hj : b.join? = some b')
    (hs : Situation ⟨b, .cancelling⟩) : Situation ⟨b', .free⟩ := by
  rcases join?_iff.mp hj with ⟨hb, rfl⟩ | ⟨hb, hw, rfl⟩
  · cases hs with
    | crossing hx => simp [hx.notJoined] at hb
    | abandoned hx => simp [hx.notJoined] at hb
    | closed hx _ => exact .closed hx (by simp)
  · refine .closed ⟨rfl, hw, .inr rfl, ?_, ?_⟩ (by simp)
    · cases hs with
      | crossing hx =>
        rcases hx.posted with ha | ⟨_, _, ho⟩
        · rw [Ahead, hw] at ha
          rcases ha with ho | ⟨_, ho⟩ <;> simp [Bridge.closed, ho]
        · simp [Bridge.closed, ho]
      | abandoned hx => exact hx.posted
      | closed hx _ => exact hx.toOwner
    · cases hs with
      | crossing hx => simp [Bridge.closed, hx.toWorker]
      | abandoned hx => simp [Bridge.closed, hx.toWorker]
      | closed hx _ => exact hx.toWorker

theorem situation_move {p q : Protocol σ τ} {o : Occurrence} (h : p.Move parser supplier o q)
    (hs : Situation p) : Situation q := by
  cases h with
  | works hm => exact situation_works (works_of_workerMove? hm) hs
  | replies hb =>
    obtain ⟨-, ⟨hp, hw, -⟩ | ⟨-, rfl⟩⟩ := beginStep_some hb
    · -- the worker of a suspended load is parked, so it has not left
      cases hs with
      | unwatched hp' => simp [hp] at hp'
      | suspended _ _ _ _ hw' => simp [hw] at hw'
      | closed hx => simpa [hp] using hx.phase
    · exact hs
  | begins hb => exact situation_begins hb hs
  | receives hr => exact situation_receives (receive?_iff.mp hr) hs
  | givesUp => exact situation_givesUp hs
  | joins hj => exact situation_joins hj hs

theorem situation_run {p q : Protocol σ τ} {trace : List Occurrence}
    (h : p.Run parser supplier trace q) (hs : Situation p) : Situation q := by
  induction h with
  | refl => exact hs
  | snoc _ hm ih => exact situation_move hm ih

/-! ## 2. Nobody waits for ever -/

/-- No channel ever holds more than one message. -/
theorem situation_channels {p : Protocol σ τ} (hs : Situation p) :
    p.bridge.toOwner.length ≤ 1 ∧ p.bridge.toWorker.length ≤ 1 := by
  have ahead {b : Bridge σ τ} (ha : Ahead b) : b.toOwner.length ≤ 1 := by
    cases hw : b.worker <;> simp only [Ahead, hw] at ha
    case parked => obtain ⟨_, ha⟩ := ha; simp [ha]
    case leaving | exited => rcases ha with ha | ⟨_, ha⟩ <;> simp [ha]
    all_goals simp [ha]
  cases hs with
  | unwatched _ _ _ hc ha | watched _ _ _ hc ha => exact ⟨ahead ha, by simp [hc]⟩
  | resumed _ _ _ hc _ ho | suspended _ _ _ hc _ ho => simp [hc, ho]
  | crossing hx =>
    refine ⟨?_, by simp [hx.toWorker]⟩
    rcases hx.posted with ha | ⟨_, _, ho⟩
    · exact ahead ha
    · simp [ho]
  | abandoned hx => exact ⟨hx.posted, by simp [hx.toWorker]⟩
  | closed hx _ => exact ⟨hx.toOwner, hx.toWorker⟩

/-- When the worker is at rest, an owner that waits in a step has its answer. -/
theorem receives_of_rest {b : Bridge σ τ} (hs : Situation ⟨b, .stepping⟩)
    (hr : b.workerMove? parser supplier = none) : ∃ p b', b.receive? = some (p, b') := by
  rcases workerMove?_eq_none_iff.mp hr with hw | ⟨s, hw, hc⟩
  · cases hs with
    | watched _ _ _ _ ha =>
      rw [Ahead, hw] at ha
      rcases ha with ho | ⟨_, ho⟩
      · exact ⟨_, _, receive?_iff.mpr (.broken ho hw)⟩
      · exact ⟨_, _, receive?_iff.mpr (.finished ho hw)⟩
    | resumed _ _ _ _ hw' => simp [hw] at hw'
    | closed _ ho => exact absurd rfl ho
  · cases hs with
    | watched _ _ _ _ ha =>
      rw [Ahead, hw] at ha
      obtain ⟨_, ho⟩ := ha
      exact ⟨_, _, receive?_iff.mpr (.yielded ho)⟩
    | resumed _ _ _ hc' => simp [hc] at hc'
    | closed _ ho => exact absurd rfl ho

/-- When the worker is at rest, an owner that waits for it to leave sees it out. -/
theorem joins_of_rest {b : Bridge σ τ} (hs : Situation ⟨b, .cancelling⟩)
    (hr : b.workerMove? parser supplier = none) : ∃ b', b.join? = some b' := by
  rcases workerMove?_eq_none_iff.mp hr with hw | ⟨s, hw, hc⟩
  · cases hj : b.joined with
    | true => exact ⟨b, join?_iff.mpr (.inl ⟨hj, rfl⟩)⟩
    | false => exact ⟨_, join?_iff.mpr (.inr ⟨hj, hw, rfl⟩)⟩
  · cases hs with
    | crossing hx => simpa [hc] using hx.toWorker
    | abandoned hx => simpa [hw] using hx.silent
    | closed hx _ => exact ⟨b, join?_iff.mpr (.inl ⟨hx.joined, rfl⟩)⟩

/-- Whenever the owner waits, it can be answered or the worker can move. -/
theorem situation_progress {p : Protocol σ τ} (hs : Situation p) :
    (p.owner = .stepping → p.bridge.receive? = none →
      ∃ b, p.bridge.workerMove? parser supplier = some b) ∧
    (p.owner = .cancelling → p.bridge.join? = none →
      ∃ b, p.bridge.workerMove? parser supplier = some b) := by
  obtain ⟨b, o⟩ := p
  refine ⟨?_, ?_⟩
  · rintro rfl hr
    refine Option.ne_none_iff_exists'.mp fun hm => ?_
    obtain ⟨_, _, hsome⟩ := receives_of_rest hs hm
    simp [hr] at hsome
  · rintro rfl hj
    refine Option.ne_none_iff_exists'.mp fun hm => ?_
    obtain ⟨_, hsome⟩ := joins_of_rest hs hm
    simp [hj] at hsome

/-- What the owner sees between its calls. -/
theorem situation_visible {b : Bridge σ τ} (hs : Situation ⟨b, .free⟩) :
    (b.phase = .idle ∨ b.phase = .workerYielded ∨ b.phase = .workerDone ∨ b.phase = .cancelled) ∧
    (b.joined = true ↔ b.phase = .workerDone ∨ b.phase = .cancelled) := by
  cases hs with
  | unwatched hp hj | suspended hp hj => simp [hp, hj]
  | closed hx => rcases hx.phase with hp | hp <;> simp [hp, hx.joined]

/-- Every step that begins while the supplier is suspended makes a round trip. -/
theorem roundTrips_move {p q : Protocol σ τ} {o : Occurrence} (h : p.Move parser supplier o q)
    (hs : Situation p) :
    q.bridge.roundTrips = p.bridge.roundTrips + [o].countP Occurrence.isRoundTrip := by
  cases h with
  | @works b b' _ hm =>
    have hf := (works_frame (works_of_workerMove? hm)).2.2
    cases hw : b.worker <;> simpa [Worker.occurrence, Occurrence.isRoundTrip] using hf
  | replies hb =>
    obtain ⟨-, ⟨hp, hw, -⟩ | ⟨hp, rfl⟩⟩ := beginStep_some hb
    · cases hs with
      | unwatched hp' => simp [hp] at hp'
      | suspended _ _ _ _ hw' => simp [hw] at hw'
      | closed hx => simpa [hp] using hx.phase
    · rcases hp with hp | hp <;> simp [hp, Occurrence.isRoundTrip]
  | begins hb =>
    rcases beginStep_none hb with ⟨hp, rfl⟩ | ⟨hp, _, rfl⟩ | ⟨hp, rfl⟩ <;>
      simp [hp, Occurrence.isRoundTrip]
  | receives hr => cases receive?_iff.mp hr <;> simp [Occurrence.isRoundTrip]
  | @givesUp b => by_cases hj : b.joined = true <;> simp [Bridge.beginCancel, hj, Occurrence.isRoundTrip]
  | joins hj =>
    rcases join?_iff.mp hj with ⟨-, rfl⟩ | ⟨-, -, rfl⟩ <;>
      simp [Bridge.closed, Occurrence.isRoundTrip]

theorem roundTrips_run {p q : Protocol σ τ} {trace : List Occurrence}
    (h : p.Run parser supplier trace q) (hs : Situation p) :
    q.bridge.roundTrips = p.bridge.roundTrips + trace.countP Occurrence.isRoundTrip := by
  induction h with
  | refl => simp
  | snoc hr hm ih =>
    rw [roundTrips_move hm (situation_run hr hs), ih, List.countP_append]
    omega

/-! ## 3. After a cancellation -/

theorem silent_move {p q : Protocol σ τ} {o : Occurrence} (h : p.Move parser supplier o q)
    (hs : Situation p) (ha : p.bridge.abandoned = true) :
    q.bridge.abandoned = true ∧ o.given? = none ∧ o.post? = none := by
  cases h with
  | works hm =>
    have hw := works_of_workerMove? hm
    cases hs with
    | unwatched _ _ hn | watched _ _ hn | resumed _ _ hn | suspended _ _ hn => simp [hn] at ha
    | crossing hx => simp [hx.notAbandoned] at ha
    | abandoned hx =>
      obtain ⟨hx', hocc⟩ := abandoned_works hw hx
      rw [hocc]
      exact ⟨hx'.abandoned, rfl, rfl⟩
    | closed hx =>
      have := hx.exited
      cases hw <;> simp_all
  | replies hb =>
    obtain ⟨-, ⟨-, -, rfl⟩ | ⟨-, rfl⟩⟩ := beginStep_some hb <;> exact ⟨ha, rfl, rfl⟩
  | begins hb =>
    rcases beginStep_none hb with ⟨-, rfl⟩ | ⟨-, -, rfl⟩ | ⟨-, rfl⟩ <;> exact ⟨ha, rfl, rfl⟩
  | receives hr => cases receive?_iff.mp hr <;> exact ⟨ha, rfl, rfl⟩
  | @givesUp b =>
    refine ⟨?_, rfl, rfl⟩
    by_cases hj : b.joined = true <;> simpa [Bridge.beginCancel, hj] using ha
  | joins hj =>
    rcases join?_iff.mp hj with ⟨-, rfl⟩ | ⟨-, -, rfl⟩ <;> exact ⟨ha, rfl, rfl⟩

/-- A worker that has seen a cancellation resumes nothing and posts nothing any more, whatever the
parser does. -/
theorem silent_run {p q : Protocol σ τ} {trace : List Occurrence}
    (h : p.Run parser supplier trace q) (hs : Situation p) (ha : p.bridge.abandoned = true) :
    q.bridge.abandoned = true ∧ givenOf trace = [] ∧ postsOf trace = [] := by
  induction h with
  | refl => exact ⟨ha, rfl, rfl⟩
  | snoc hr hm ih =>
    obtain ⟨ha', hg, hp⟩ := ih
    obtain ⟨ha'', hg', hp'⟩ := silent_move hm (situation_run hr hs) ha'
    exact ⟨ha'', by simp [hg, hg'], by simp [hp, hp']⟩

/-! ## 4. A load that is given up comes to its end -/

section
variable (parser : Parser σ) (supplier : Supplier τ)

/-- The states that the parser and the supplier of a load can be in together. The flag says whether
the supplier is suspended; if not, the next thing it is given is nothing at all. -/
inductive Reached (name : String) (t : τ) : Bool → σ → τ → Prop
  | start : Reached name t false (parser.start name) t
  | returns {k : Bool} {s : σ} {u u' : τ} {args : List Value} {value : Value} :
      Reached name t k s u → parser.verdict? s = none → (k = false → args = []) →
      supplier.resume u args = (.returned value, u') →
      Reached name t false (parser.receive s (pieceOf value)) u'
  | fails {k : Bool} {s : σ} {u u' : τ} {args : List Value} {message : String} :
      Reached name t k s u → parser.verdict? s = none → (k = false → args = []) →
      supplier.resume u args = (.failed message, u') →
      Reached name t false (parser.receive s (.error (.reader message))) u'
  | suspends {k : Bool} {s : σ} {u u' : τ} {args values : List Value} :
      Reached name t k s u → parser.verdict? s = none → (k = false → args = []) →
      supplier.resume u args = (.yielded values, u') → Reached name t true s u'

/-- A parse that is refused all that it asks for comes to its verdict. -/
inductive GivesUp : σ → Prop
  | ended {s : σ} {verdict : Verdict} : parser.verdict? s = some verdict → GivesUp s
  | refused {s : σ} : GivesUp (parser.receive s (.error .cancelled)) → GivesUp s

/-- A parse comes to its verdict or to a suspension or a panic of its supplier. -/
inductive Pauses : σ → τ → Prop
  | ended {s : σ} {u : τ} {verdict : Verdict} : parser.verdict? s = some verdict → Pauses s u
  | suspends {s : σ} {u u' : τ} {values : List Value} :
      supplier.resume u [] = (.yielded values, u') → Pauses s u
  | panics {s : σ} {u u' : τ} {message : String} :
      supplier.resume u [] = (.panicked message, u') → Pauses s u
  | returns {s : σ} {u u' : τ} {value : Value} :
      supplier.resume u [] = (.returned value, u') →
      Pauses (parser.receive s (pieceOf value)) u' → Pauses s u
  | fails {s : σ} {u u' : τ} {message : String} :
      supplier.resume u [] = (.failed message, u') →
      Pauses (parser.receive s (.error (.reader message))) u' → Pauses s u

/-- Every single computation of the parser and the supplier of a load returns or panics: the parse does
not go on for ever without a suspension, nor when it is refused everything after a suspension. -/
structure Returns (name : String) (t : τ) : Prop where
  pauses : ∀ s u, Reached parser supplier name t false s u → Pauses parser supplier s u
  givesUp : ∀ s u, Reached parser supplier name t true s u →
    GivesUp parser (parser.receive s (.error .cancelled))

/-- Where the parser and the supplier of a load stand, as long as the worker has seen no
cancellation. -/
def Tracked (name : String) (t : τ) (b : Bridge σ τ) : Prop :=
  match b.worker with
  | .parsing s => b.abandoned = false → Reached parser supplier name t false s b.supplier
  | .supplying s args => parser.verdict? s = none ∧
      ∃ k, Reached parser supplier name t k s b.supplier ∧ (k = false → args = [])
  | .posting s _ | .parked s =>
      parser.verdict? s = none ∧ Reached parser supplier name t true s b.supplier
  | .reporting _ | .leaving | .exited => True

/-- The worker comes to leave. -/
def Exits (b : Bridge σ τ) : Prop := ∃ n, (b.runWorker parser supplier n).worker = .exited

end

section
variable {name : String} {t : τ}

theorem tracked_works {b b' : Bridge σ τ} (h : Works parser supplier b b')
    (ht : Tracked parser supplier name t b) : Tracked parser supplier name t b' := by
  cases h with
  | concludes | fallsSilent | breaks | panics | reports | exits => trivial
  | asks hw hv ha =>
    rw [Tracked, hw] at ht
    exact ⟨hv, false, ht ha, fun _ => rfl⟩
  | refuses _ _ ha => exact fun hn => absurd (ha.symm.trans hn) (by simp)
  | returns hw hr =>
    rw [Tracked, hw] at ht
    obtain ⟨hv, k, hk, hargs⟩ := ht
    exact fun _ => .returns hk hv hargs hr
  | fails hw hr =>
    rw [Tracked, hw] at ht
    obtain ⟨hv, k, hk, hargs⟩ := ht
    exact fun _ => .fails hk hv hargs hr
  | suspends hw hr =>
    rw [Tracked, hw] at ht
    obtain ⟨hv, k, hk, hargs⟩ := ht
    exact ⟨hv, .suspends hk hv hargs hr⟩
  | posts hw =>
    rw [Tracked, hw] at ht
    exact ht
  | resumes hw _ =>
    rw [Tracked, hw] at ht
    exact ⟨ht.1, true, ht.2, by simp⟩
  | abandons => exact fun hn => absurd hn (by simp)

theorem tracked_move {p q : Protocol σ τ} {o : Occurrence} (h : p.Move parser supplier o q)
    (ht : Tracked parser supplier name t p.bridge) :
    Tracked parser supplier name t q.bridge := by
  cases h with
  | works hm => exact tracked_works (works_of_workerMove? hm) ht
  | replies hb => obtain ⟨-, ⟨-, -, rfl⟩ | ⟨-, rfl⟩⟩ := beginStep_some hb <;> exact ht
  | begins hb => rcases beginStep_none hb with ⟨-, rfl⟩ | ⟨-, -, rfl⟩ | ⟨-, rfl⟩ <;> exact ht
  | receives hr => cases receive?_iff.mp hr <;> exact ht
  | @givesUp b =>
    rw [Bridge.beginCancel]
    split <;> exact ht
  | joins hj => rcases join?_iff.mp hj with ⟨-, rfl⟩ | ⟨-, -, rfl⟩ <;> exact ht

theorem tracked_run {p : Protocol σ τ} {trace : List Occurrence}
    (h : (Protocol.start parser name t).Run parser supplier trace p) :
    Tracked parser supplier name t p.bridge := by
  induction h with
  | refl => exact fun _ => .start
  | snoc _ hm ih => exact tracked_move hm ih

end

theorem exits_of_exited {b : Bridge σ τ} (h : b.worker = .exited) : Exits parser supplier b :=
  ⟨0, h⟩

theorem exits_of_works {b b' : Bridge σ τ} (h : Works parser supplier b b')
    (he : Exits parser supplier b') : Exits parser supplier b := by
  obtain ⟨n, hn⟩ := he
  refine ⟨n + 1, ?_⟩
  rw [Bridge.runWorker, works_iff.mpr h]
  exact hn

theorem exits_of_leaving {b : Bridge σ τ} (h : b.worker = .leaving) : Exits parser supplier b :=
  exits_of_works (.exits h) (exits_of_exited rfl)

theorem exits_of_reporting {b : Bridge σ τ} {result : Except LoadError Value}
    (h : b.worker = .reporting result) : Exits parser supplier b :=
  exits_of_works (.reports h) (exits_of_leaving rfl)

/-- A parse that has its verdict ends the load. -/
theorem exits_of_verdict {b : Bridge σ τ} {s : σ} {verdict : Verdict} (hw : b.worker = .parsing s)
    (hv : parser.verdict? s = some verdict) : Exits parser supplier b := by
  cases verdict with
  | panicked => exact exits_of_works (.breaks hw hv) (exits_of_leaving rfl)
  | loaded =>
    cases ha : b.abandoned with
    | false => exact exits_of_works (.concludes hw hv ha) (exits_of_reporting rfl)
    | true => exact exits_of_works (.fallsSilent hw hv ha) (exits_of_leaving rfl)

/-- A parse without a verdict asks its supplier. -/
theorem exits_of_asking {b : Bridge σ τ} {s : σ} (hw : b.worker = .parsing s)
    (ha : b.abandoned = false)
    (h : parser.verdict? s = none → Exits parser supplier { b with worker := .supplying s [] }) :
    Exits parser supplier b := by
  cases hv : parser.verdict? s with
  | some verdict => exact exits_of_verdict hw hv
  | none => exact exits_of_works (.asks hw hv ha) (h hv)

/-- After a cancellation the worker leaves once the parse gives up. -/
theorem exits_of_abandoned {s : σ} (hg : GivesUp parser s) {b : Bridge σ τ}
    (hw : b.worker = .parsing s) (ha : b.abandoned = true) : Exits parser supplier b := by
  induction hg generalizing b with
  | ended hv => exact exits_of_verdict hw hv
  | @refused s _ ih =>
    cases hv : parser.verdict? s with
    | some verdict => exact exits_of_verdict hw hv
    | none => exact exits_of_works (.refuses hw hv ha) (ih rfl ha)

section
variable {name : String} {t : τ}

/-- A parked worker that is told to give up leaves. -/
theorem exits_of_parked (hr : Returns parser supplier name t) {b : Bridge σ τ} {s : σ}
    (hw : b.worker = .parked s) (hs : Reached parser supplier name t true s b.supplier)
    (hc : b.toWorker = [.cancel]) : Exits parser supplier b :=
  exits_of_works (.abandons hw hc) (exits_of_abandoned (hr.givesUp _ _ hs) rfl rfl)

/-- A worker that is told to give up leaves after its supplier has suspended. -/
theorem exits_of_posting (hr : Returns parser supplier name t) {b : Bridge σ τ} {s : σ}
    {values : List Value} (hw : b.worker = .posting s values)
    (hs : Reached parser supplier name t true s b.supplier) (hc : b.toWorker = [.cancel]) :
    Exits parser supplier b :=
  exits_of_works (.posts hw) (exits_of_parked hr rfl hs hc)

/-- A worker that has not heard of the cancellation yet leaves, because its parse pauses. -/
theorem exits_of_parsing (hr : Returns parser supplier name t) {s : σ} {u : τ}
    (hp : Pauses parser supplier s u) {b : Bridge σ τ} (hw : b.worker = .parsing s)
    (hu : b.supplier = u) (hs : Reached parser supplier name t false s u)
    (ha : b.abandoned = false) (hc : b.toWorker = [.cancel]) : Exits parser supplier b := by
  induction hp generalizing b with
  | ended h => exact exits_of_verdict hw h
  | suspends h =>
    subst hu
    refine exits_of_asking hw ha fun hv => exits_of_works (.suspends rfl h) ?_
    exact exits_of_posting hr rfl (.suspends hs hv (fun _ => rfl) h) hc
  | panics h =>
    subst hu
    exact exits_of_asking hw ha fun _ => exits_of_works (.panics rfl h) (exits_of_leaving rfl)
  | returns h _ ih =>
    subst hu
    refine exits_of_asking hw ha fun hv => exits_of_works (.returns rfl h) ?_
    exact ih rfl rfl (.returns hs hv (fun _ => rfl) h) ha hc
  | fails h _ ih =>
    subst hu
    refine exits_of_asking hw ha fun hv => exits_of_works (.fails rfl h) ?_
    exact ih rfl rfl (.fails hs hv (fun _ => rfl) h) ha hc

/-- The same from within a question to the supplier. -/
theorem exits_of_supplying (hr : Returns parser supplier name t) {b : Bridge σ τ} {s : σ}
    {args : List Value} (hw : b.worker = .supplying s args)
    (ht : Tracked parser supplier name t b) (ha : b.abandoned = false)
    (hc : b.toWorker = [.cancel]) : Exits parser supplier b := by
  rw [Tracked, hw] at ht
  obtain ⟨hv, k, hk, hargs⟩ := ht
  rcases h : supplier.resume b.supplier args with ⟨supply, u⟩
  cases supply with
  | yielded values =>
    exact exits_of_works (.suspends hw h) (exits_of_posting hr rfl (.suspends hk hv hargs h) hc)
  | panicked message => exact exits_of_works (.panics hw h) (exits_of_leaving rfl)
  | returned value =>
    have hs := Reached.returns hk hv hargs h
    exact exits_of_works (.returns hw h)
      (exits_of_parsing hr (hr.pauses _ _ hs) rfl rfl hs ha hc)
  | failed message =>
    have hs := Reached.fails hk hv hargs h
    exact exits_of_works (.fails hw h)
      (exits_of_parsing hr (hr.pauses _ _ hs) rfl rfl hs ha hc)

/-- Wherever the worker stands when it is told to give up, it comes to leave. -/
theorem exits_of_told (hr : Returns parser supplier name t) {b : Bridge σ τ}
    (ht : Tracked parser supplier name t b) (ha : b.abandoned = false)
    (hc : b.toWorker = [.cancel]) : Exits parser supplier b := by
  cases hw : b.worker with
  | parsing s =>
    rw [Tracked, hw] at ht
    exact exits_of_parsing hr (hr.pauses _ _ (ht ha)) hw rfl (ht ha) ha hc
  | supplying s args => exact exits_of_supplying hr hw ht ha hc
  | posting s values =>
    rw [Tracked, hw] at ht
    exact exits_of_posting hr hw ht.2 hc
  | parked s =>
    rw [Tracked, hw] at ht
    exact exits_of_parked hr hw ht.2 hc
  | reporting result => exact exits_of_reporting hw
  | leaving => exact exits_of_leaving hw
  | exited => exact exits_of_exited hw

theorem exits_of_givingUp (hr : Returns parser supplier name t) {b : Bridge σ τ}
    (hs : Situation ⟨b, .free⟩) (ht : Tracked parser supplier name t b) :
    Exits parser supplier b.beginCancel := by
  cases hs with
  | closed hx _ =>
    rw [Bridge.beginCancel, if_pos hx.joined]
    exact exits_of_exited hx.exited
  | unwatched _ hj hn hc | suspended _ hj hn hc =>
    rw [Bridge.beginCancel, if_neg (by simp [hj])]
    exact exits_of_told hr ht hn (by simp [hc])

end

theorem runWorker_frame (parser : Parser σ) (supplier : Supplier τ) (fuel : Nat) (b : Bridge σ τ) :
    (b.runWorker parser supplier fuel).phase = b.phase ∧
    (b.runWorker parser supplier fuel).joined = b.joined := by
  induction fuel generalizing b with
  | zero => exact ⟨rfl, rfl⟩
  | succ n ih =>
    rw [Bridge.runWorker]
    cases hm : b.workerMove? parser supplier with
    | none => exact ⟨rfl, rfl⟩
    | some b' =>
      obtain ⟨hp, hj, -⟩ := works_frame (works_of_workerMove? hm)
      exact ⟨(ih b').1.trans hp, (ih b').2.trans hj⟩

/-- Once the worker has left, the owner that gave the load up goes on, with the load over. -/
theorem cancel_of_exits {b : Bridge σ τ} {n : Nat} (hs : Situation ⟨b, .free⟩)
    (hn : (b.beginCancel.runWorker parser supplier n).worker = .exited) {fuel : Nat}
    (hle : n ≤ fuel) :
    ∃ b', b.cancel parser supplier fuel = some b' ∧ b'.joined = true ∧ b'.worker = .exited ∧
      (b.joined = false → b'.phase = .cancelled) := by
  rw [Bridge.cancel]
  cases hj : b.joined with
  | true =>
    cases hs with
    | unwatched _ hj' | suspended _ hj' => simp [hj'] at hj
    | closed hx _ => exact ⟨b, by simp, hj, hx.exited, by simp⟩
  | false =>
    have hrest := runWorker_of_rest (workerMove?_eq_none_iff.mpr (.inl hn)) hle
    have hframe := (runWorker_frame parser supplier n b.beginCancel).2
    rw [hrest, if_neg (by simp)]
    refine ⟨_, join?_iff.mpr (.inr ⟨hframe.trans ?_, hn, rfl⟩), rfl, hn, fun _ => rfl⟩
    simp [Bridge.beginCancel, hj]

/-- A load that is over answers every step with a cancellation, and giving it up changes nothing. -/
theorem calls_of_closed {b : Bridge σ τ} (hx : Closed b) (fuel : Nat) (values : List Value) :
    b.step parser supplier fuel values = some (.cancelled, b) ∧
    b.cancel parser supplier fuel = some b := by
  refine ⟨?_, by rw [Bridge.cancel, if_pos hx.joined]⟩
  rcases hx.phase with hp | hp <;> simp [Bridge.step, Bridge.beginStep, hp]

/-! ## 5. The whole of it -/

/-- Safety of the protocol, for every parser and every supplier and in every state that any moves of
the worker and any calls of the owner, in any order, lead to.

* No channel holds more than one message, and whoever sends one finds the channel empty.
* Whenever the owner waits for an answer or for the worker to leave, and does not have it, the worker
  can move.
* Between its calls the owner sees one of four phases; the worker has been seen out in the last two of
  them exactly; and there were as many round trips as steps in the phase in which the supplier was
  suspended.
* After the worker has seen a cancellation it gives the supplier nothing and posts nothing.
* Giving the load up ends with the worker seen out, if every single computation of the parser and the
  supplier returns or panics: the worker cannot move for ever before it leaves, the call returns, and
  calls made later find the load over. -/
theorem protocol_safe (parser : Parser σ) (supplier : Supplier τ) (name : String) (t : τ)
    {trace : List Occurrence} {p : Protocol σ τ}
    (h : (Protocol.start parser name t).Run parser supplier trace p) :
    (p.bridge.toOwner.length ≤ 1 ∧ p.bridge.toWorker.length ≤ 1) ∧
    (∀ o q, p.Move parser supplier o q →
      (p.bridge.toOwner.length < q.bridge.toOwner.length → p.bridge.toOwner = []) ∧
      (p.bridge.toWorker.length < q.bridge.toWorker.length → p.bridge.toWorker = [])) ∧
    ((p.owner = .stepping → p.bridge.receive? = none →
        ∃ b, p.bridge.workerMove? parser supplier = some b) ∧
      (p.owner = .cancelling → p.bridge.join? = none →
        ∃ b, p.bridge.workerMove? parser supplier = some b)) ∧
    (p.owner = .free →
      (p.bridge.phase = .idle ∨ p.bridge.phase = .workerYielded ∨ p.bridge.phase = .workerDone ∨
        p.bridge.phase = .cancelled) ∧
      (p.bridge.joined = true ↔ p.bridge.phase = .workerDone ∨ p.bridge.phase = .cancelled) ∧
      p.bridge.roundTrips = trace.countP Occurrence.isRoundTrip) ∧
    (p.bridge.abandoned = true → ∀ later q, p.Run parser supplier later q →
      givenOf later = [] ∧ postsOf later = []) ∧
    (p.owner = .free → Returns parser supplier name t →
      ∃ n,
        (∀ works q, Protocol.Run parser supplier ⟨p.bridge.beginCancel, .cancelling⟩ works q →
          (∀ x ∈ works, x.isWork = true) → works.length ≤ n) ∧
        ∀ fuel ≥ n, ∃ b works, p.bridge.cancel parser supplier fuel = some b ∧
          p.Run parser supplier (.gaveUp :: works ++ [.joined]) ⟨b, .free⟩ ∧
          b.joined = true ∧ b.worker = .exited ∧
          (p.bridge.joined = false → b.phase = .cancelled) ∧
          ∀ more values, b.step parser supplier more values = some (.cancelled, b) ∧
            b.cancel parser supplier more = some b) := by
  have hs := situation_run h (situation_start name t)
  have hchannels := situation_channels hs
  refine ⟨hchannels, ?_, situation_progress hs, ?_, ?_, ?_⟩
  · intro o q hm
    have hq := situation_channels (situation_move hm hs)
    exact ⟨fun hlt => List.eq_nil_of_length_eq_zero (by omega),
      fun hlt => List.eq_nil_of_length_eq_zero (by omega)⟩
  · intro ho
    obtain ⟨b, _⟩ := p
    subst ho
    obtain ⟨hphase, hjoined⟩ := situation_visible hs
    have htrips := roundTrips_run h (situation_start name t)
    exact ⟨hphase, hjoined, by simpa [Protocol.start, Bridge.start] using htrips⟩
  · intro ha later q hrun
    exact (silent_run hrun hs ha).2
  · intro ho hr
    obtain ⟨b, _⟩ := p
    subst ho
    obtain ⟨n, hn⟩ := exits_of_givingUp hr hs (tracked_run h)
    refine ⟨n, ?_, ?_⟩
    · intro works q hrun hall
      exact Protocol.length_le_of_rest hrun hall (workerMove?_eq_none_iff.mpr (.inl hn))
    · intro fuel hle
      obtain ⟨b', hcancel, hj, hw, hp⟩ := cancel_of_exits hs hn hle
      obtain ⟨works, hrun, -⟩ := Protocol.run_cancel hcancel
      have hclosed : Closed b' := by
        cases situation_run hrun hs with
        | closed hx _ => exact hx
        | unwatched _ hj' | suspended _ hj' => simp [hj'] at hj
      exact ⟨b', works, hcancel, hrun, hj, hw, hp, calls_of_closed hclosed⟩

/-- A supplier that suspends whenever it is resumed. -/
def suspending : Supplier Nat := ⟨fun n _ => (.yielded [], n + 1)⟩

theorem suspending_returns : Returns verbatim suspending "=t" 0 := by
  refine ⟨fun s u _ => .suspends rfl, fun s u _ => ?_⟩
  cases s with
  | reading name source => exact .ended rfl
  | ended result => exact .ended rfl

/-- The load of a supplier that suspends for ever is given up while the values that it suspended with
first are still on their way to the owner. -/
theorem protocol_safe_suspending :
    ∃ trace p, (Protocol.start verbatim "=t" 0).Run verbatim suspending trace p ∧
      p.bridge.toOwner = [.yielded []] ∧
      ∃ n, ∀ fuel ≥ n, ∃ b, p.bridge.cancel verbatim suspending fuel = some b ∧
        b.joined = true ∧ b.phase = .cancelled := by
  obtain ⟨trace, hrun, -⟩ :=
    Protocol.run_runWorker verbatim suspending 3 (Bridge.start verbatim "=t" 0) .free
  refine ⟨trace, _, hrun, rfl, ?_⟩
  have hsafe := protocol_safe verbatim suspending "=t" 0 hrun
  obtain ⟨n, -, hcancel⟩ := hsafe.2.2.2.2.2 rfl suspending_returns
  refine ⟨n, fun fuel hle => ?_⟩
  obtain ⟨b, -, hb, -, hj, -, hp, -⟩ := hcancel fuel hle
  exact ⟨b, hb, hj, hp rfl⟩

end ComputerHost.Load

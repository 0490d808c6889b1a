import ComputerHost.Proofs.Load.Safety
import ComputerHost.Proofs.Load.Sequential

/-!
# A bridged load is the plain load

A load whose supplier is resumed by the owner, step after step, answers what the sequential load answers
that knows the values of all steps beforehand. The worker may move at any time between and during the
steps.

Two invariants carry this, both for runs in which the load is not given up. `Follows` is about the
worker: what it has left to do from where it stands comes to what the whole load comes to. `Owed` is
about the owner: its answers are what was posted, less what is still on its way.

Results:
1. `faithful_move`, `faithful_run`: the invariants.
2. `faithful`: the answers in every run.
3. `drive_returns`, `drive_eq_sequential`: the steps return, if the sequential load does.
4. `drive_bridged`, `drive_operations`: operations, with the loads that never suspend.
5. `bridged_refines_sequential`: all of it together.
-/

namespace ComputerHost.Load

/-- What a verdict is answered with. -/
def Verdict.answer : Verdict → Progress
  | .loaded result => .done result
  | .panicked _ => .cancelled

/-- What the worker posts of a verdict. -/
def Verdict.report : Verdict → List WorkerMessage
  | .loaded result => [.finished result]
  | .panicked _ => []

/-- The answers of a load that has come to this end: first its suspensions, then its verdict, and from
then on nothing but cancellations. -/
def Sequential.answers {τ : Type} (r : Sequential τ) : Option Verdict → List Progress
  | none => r.yields.map .yielded
  | some verdict => r.yields.map .yielded ++ verdict.answer :: r.resumes.map fun _ => .cancelled

/-- The answers to an owner that waits for message after message until the load is over. -/
def answersTo : List WorkerMessage → List Progress
  | [] => [.cancelled]
  | .yielded values :: rest => .yielded values :: answersTo rest
  | .finished result :: _ => [.done result]

theorem answersTo_yielded (ys : List (List Value)) (rest : List WorkerMessage) :
    answersTo (ys.map .yielded ++ rest) = ys.map .yielded ++ answersTo rest := by
  induction ys with
  | nil => rfl
  | cons y ys ih => simp only [List.map_cons, List.cons_append, answersTo, ih]

theorem answersTo_report (ys : List (List Value)) (verdict : Verdict) :
    answersTo (ys.map .yielded ++ verdict.report) = ys.map .yielded ++ [verdict.answer] := by
  rw [answersTo_yielded]
  cases verdict <;> rfl

variable {σ τ : Type}

/-- How the worker stands to the whole load `⟨t, values, [], []⟩`, after it has posted `posts` and given
the supplier `given`, and after the owner has sent `sents`. The list `sent` is what the owner has sent and
the worker has not taken, `ys` the suspensions that were posted. -/
inductive Follows (parser : Parser σ) (supplier : Supplier τ) (name : String) (t : τ)
    (posts : List WorkerMessage) (sents given : List (List Value)) (b : Bridge σ τ) : Prop
  | going (sent ys : List (List Value)) :
      b.worker ≠ .leaving → b.worker ≠ .exited → b.abandoned = false →
      b.toWorker = sent.map .resume → posts = ys.map .yielded →
      (∀ later x,
        Comes parser supplier (.parsing (parser.start name)) ⟨t, sents ++ later, [], []⟩ x ↔
        Comes parser supplier b.worker ⟨b.supplier, sent ++ later, ys, given⟩ x) →
      Follows parser supplier name t posts sents given b
  | ended (sent ys : List (List Value)) (verdict : Verdict) :
      b.worker = .leaving ∨ b.worker = .exited → b.toWorker = sent.map .resume →
      posts = ys.map .yielded ++ verdict.report →
      (∀ later,
        Comes parser supplier (.parsing (parser.start name)) ⟨t, sents ++ later, [], []⟩
          (some verdict, ⟨b.supplier, sent ++ later, ys, given⟩)) →
      Follows parser supplier name t posts sents given b

/-- How the answers stand to what was posted and to the steps. -/
inductive Owed (trace : List Occurrence) : Protocol σ τ → Prop
  | unwatched {b : Bridge σ τ} :
      b.phase = .idle → stepsOf trace = [] → answersOf trace = [] → sentOf trace = [] →
      postsOf trace = b.toOwner → Owed trace ⟨b, .free⟩
  | watched {b : Bridge σ τ} (v : List Value) (ys : List (List Value)) :
      b.phase = .workerRunning → stepsOf trace = v :: sentOf trace →
      answersOf trace = ys.map .yielded → postsOf trace = ys.map .yielded ++ b.toOwner →
      Owed trace ⟨b, .stepping⟩
  | suspended {b : Bridge σ τ} (v : List Value) (ys : List (List Value)) :
      b.phase = .workerYielded → stepsOf trace = v :: sentOf trace →
      answersOf trace = ys.map .yielded → postsOf trace = ys.map .yielded ++ b.toOwner →
      Owed trace ⟨b, .free⟩
  /-- The values of the steps after the end were not sent. -/
  | closed {b : Bridge σ τ} (v : List Value) (unused : List (List Value)) :
      b.joined = true → b.toWorker = [] → stepsOf trace = v :: (sentOf trace ++ unused) →
      answersOf trace = answersTo (postsOf trace) ++ unused.map (fun _ => .cancelled) →
      Owed trace ⟨b, .free⟩

variable {parser : Parser σ} {supplier : Supplier τ}

/-! ## 1. The invariants -/

section
variable {name : String} {t : τ} {posts : List WorkerMessage} {sents given : List (List Value)}

theorem follows_start :
    Follows parser supplier name t [] [] [] (Bridge.start parser name t) :=
  .going [] [] (by simp [Bridge.start]) (by simp [Bridge.start]) rfl rfl rfl fun _ _ => Iff.rfl

section
variable {b b' : Bridge σ τ}

theorem follows_silent (ho : b.worker.occurrence = .worked)
    (hf : Follows parser supplier name t posts sents given b') :
    Follows parser supplier name t (posts ++ b.worker.occurrence.post?.toList) sents
      (given ++ b.worker.occurrence.given?.toList) b' := by
  rw [ho]
  simpa [Occurrence.post?, Occurrence.given?] using hf

theorem follows_supplied {args : List Value} (ho : b.worker.occurrence = .supplied args)
    (hf : Follows parser supplier name t posts sents (given ++ [args]) b') :
    Follows parser supplier name t (posts ++ b.worker.occurrence.post?.toList) sents
      (given ++ b.worker.occurrence.given?.toList) b' := by
  rw [ho]
  simpa [Occurrence.post?, Occurrence.given?] using hf

theorem follows_posted {message : WorkerMessage} (ho : b.worker.occurrence = .posted message)
    (hf : Follows parser supplier name t (posts ++ [message]) sents given b') :
    Follows parser supplier name t (posts ++ b.worker.occurrence.post?.toList) sents
      (given ++ b.worker.occurrence.given?.toList) b' := by
  rw [ho]
  simpa [Occurrence.post?, Occurrence.given?] using hf

/-- The worker goes on and what the load comes to stays the same. -/
theorem follows_works (h : Works parser supplier b b')
    (hf : Follows parser supplier name t posts sents given b) :
    Follows parser supplier name t (posts ++ b.worker.occurrence.post?.toList) sents
      (given ++ b.worker.occurrence.given?.toList) b' := by
  cases hf with
  -- The verdict is known: nothing but the exit is left to the worker.
  | ended sent ys verdict hw hc hp hx =>
    cases h with
    | exits hs =>
      exact follows_silent (by rw [hs]; rfl) (.ended sent ys verdict (.inr rfl) hc hp hx)
    | _ => simp_all
  | going sent ys hl he ha hc hp hx =>
    -- A move is a step of the sequential load, so what the rest comes to does not change.
    cases h with
    | concludes hs hv =>
      refine follows_silent (by rw [hs]; rfl) (.going sent ys (by simp) (by simp) ha hc hp ?_)
      intro later x
      rw [hx, hs, comes_of_verdict hv, comes_reporting]
    | fallsSilent _ _ hn | refuses _ _ hn => simp [ha] at hn
    | @breaks s message hs hv =>
      refine follows_silent (by rw [hs]; rfl)
        (.ended sent ys (.panicked message) (.inl rfl) hc (by simp [hp, Verdict.report]) ?_)
      intro later
      rw [hx, hs, comes_of_verdict hv]
    | asks hs hv =>
      refine follows_silent (by rw [hs]; rfl) (.going sent ys (by simp) (by simp) ha hc hp ?_)
      intro later x
      rw [hx, hs, comes_of_asking hv]
    | returns hs hr =>
      refine follows_supplied (by rw [hs]; rfl) (.going sent ys (by simp) (by simp) ha hc hp ?_)
      intro later x
      rw [hx, hs]
      exact comes_congr fun n => finish_returns hr
    | fails hs hr =>
      refine follows_supplied (by rw [hs]; rfl) (.going sent ys (by simp) (by simp) ha hc hp ?_)
      intro later x
      rw [hx, hs]
      exact comes_congr fun n => finish_fails hr
    | suspends hs hr =>
      refine follows_supplied (by rw [hs]; rfl) (.going sent ys (by simp) (by simp) ha hc hp ?_)
      intro later x
      rw [hx, hs]
      exact comes_congr fun n => finish_suspends hr
    | @panics s args message u hs hr =>
      refine follows_supplied (by rw [hs]; rfl)
        (.ended sent ys (.panicked message) (.inl rfl) hc (by simp [hp, Verdict.report]) ?_)
      intro later
      rw [hx, hs]
      exact ⟨0, finish_panics hr⟩
    | @posts s values hs =>
      refine follows_posted (by rw [hs]; rfl)
        (.going sent (ys ++ [values]) (by simp) (by simp) ha hc (by simp [hp]) ?_)
      intro later x
      rw [hx, hs]
      exact comes_congr fun n => rfl
    | @resumes s values rest hs hm =>
      cases sent with
      | nil => simp [hc] at hm
      | cons v vs =>
        obtain ⟨rfl, rfl⟩ : v = values ∧ vs.map .resume = rest := by simpa [hc] using hm
        refine follows_silent (by rw [hs]; rfl) (.going vs ys (by simp) (by simp) ha rfl hp ?_)
        intro later x
        rw [hx, hs]
        exact comes_resumes rfl
    | abandons hs hm => cases sent <;> simp [hc] at hm
    | @reports result hs =>
      refine follows_posted (by rw [hs]; rfl)
        (.ended sent ys (.loaded result) (.inl rfl) hc (by simp [hp, Verdict.report]) ?_)
      intro later
      rw [hx, hs, comes_reporting]
    | exits hs => exact absurd hs hl

/-- The owner sends values. -/
theorem follows_sends {values : List Value}
    (hf : Follows parser supplier name t posts sents given b) (hw : b'.worker = b.worker)
    (hs : b'.supplier = b.supplier) (ha : b'.abandoned = b.abandoned)
    (hc : b'.toWorker = b.toWorker ++ [.resume values]) :
    Follows parser supplier name t posts (sents ++ [values]) given b' := by
  cases hf with
  | going sent ys hl he ha' hc' hp hx =>
    refine .going (sent ++ [values]) ys (by rwa [hw]) (by rwa [hw]) (ha.trans ha')
      (by simp [hc, hc']) hp fun later x => ?_
    rw [hw, hs, List.append_assoc, List.append_assoc]
    exact hx ([values] ++ later) x
  | ended sent ys verdict hw' hc' hp hx =>
    refine .ended (sent ++ [values]) ys verdict (by rwa [hw]) (by simp [hc, hc']) hp
      fun later => ?_
    rw [hs, List.append_assoc, List.append_assoc]
    exact hx ([values] ++ later)

/-- What the owner does otherwise does not concern the worker. -/
theorem follows_frame (hf : Follows parser supplier name t posts sents given b)
    (hw : b'.worker = b.worker) (hs : b'.supplier = b.supplier)
    (ha : b'.abandoned = b.abandoned) (hc : b'.toWorker = b.toWorker) :
    Follows parser supplier name t posts sents given b' := by
  cases hf with
  | going sent ys hl he ha' hc' hp hx =>
    refine .going sent ys (by rwa [hw]) (by rwa [hw]) (ha.trans ha') (hc.trans hc') hp ?_
    rw [hw, hs]
    exact hx
  | ended sent ys verdict hw' hc' hp hx =>
    refine .ended sent ys verdict (by rwa [hw]) (hc.trans hc') hp ?_
    rw [hs]
    exact hx

end

end

section
variable {trace : List Occurrence}

/-- What the worker posts is on its way. -/
theorem works_toOwner {b b' : Bridge σ τ} (h : Works parser supplier b b') :
    b'.toOwner = b.toOwner ++ b.worker.occurrence.post?.toList := by
  cases h with
  | posts hs | reports hs => simp [hs, Worker.occurrence, Occurrence.post?]
  | concludes hs | fallsSilent hs | breaks hs | asks hs | refuses hs | returns hs | fails hs
  | suspends hs | panics hs | resumes hs | abandons hs | exits hs =>
    simp [hs, Worker.occurrence, Occurrence.post?]

theorem owed_works {b b' : Bridge σ τ} {o : Owner} (h : Works parser supplier b b')
    (hs : Situation ⟨b, o⟩) (hk : Owed trace ⟨b, o⟩) :
    Owed (trace ++ [b.worker.occurrence]) ⟨b', o⟩ := by
  obtain ⟨hphase, hjoined, -⟩ := works_frame h
  have hto := works_toOwner h
  cases hk with
  | unwatched hp hsteps ha hsent hposts =>
    exact .unwatched (hphase.trans hp) (by simp [hsteps]) (by simp [ha]) (by simp [hsent])
      (by simp [hposts, hto])
  | watched v ys hp hsteps ha hposts =>
    exact .watched v ys (hphase.trans hp) (by simp [hsteps]) (by simp [ha])
      (by simp [hposts, hto])
  | suspended v ys hp hsteps ha hposts =>
    exact .suspended v ys (hphase.trans hp) (by simp [hsteps]) (by simp [ha])
      (by simp [hposts, hto])
  | closed v unused hj _ hsteps ha =>
    -- the worker of a load that is over does not move
    cases hs with
    | unwatched _ hj' | suspended _ hj' => simp [hj'] at hj
    | closed hx _ =>
      have hexited := hx.exited
      cases h <;> simp_all

/-- Nobody gives the load up, the worker follows the whole load, and the owner is owed the rest of what
was posted. -/
structure Faithful (parser : Parser σ) (supplier : Supplier τ) (name : String) (t : τ)
    (trace : List Occurrence) (p : Protocol σ τ) : Prop where
  situation : Situation p
  notCancelling : p.owner ≠ .cancelling
  follows : Follows parser supplier name t (postsOf trace) (sentOf trace) (givenOf trace) p.bridge
  owed : Owed trace p

variable {name : String} {t : τ}

theorem faithful_start : Faithful parser supplier name t [] (Protocol.start parser name t) :=
  ⟨situation_start name t, by simp [Protocol.start], follows_start,
    .unwatched rfl rfl rfl rfl rfl⟩

/-- What the owner does adds to the values that were sent and to nothing else of what `Follows` is
about. -/
theorem follows_append {b : Bridge σ τ} {o : Occurrence} (new : List (List Value))
    (hp : o.post? = none) (hg : o.given? = none) (hs : o.sent?.toList = new)
    (hf : Follows parser supplier name t (postsOf trace) (sentOf trace ++ new) (givenOf trace) b) :
    Follows parser supplier name t (postsOf (trace ++ [o])) (sentOf (trace ++ [o]))
      (givenOf (trace ++ [o])) b := by
  simpa [hp, hg, hs] using hf

theorem follows_begins {b b' : Bridge σ τ} {values : List Value} (hs : Situation ⟨b, .free⟩)
    (hb : b.beginStep values = (none, b'))
    (hf : Follows parser supplier name t (postsOf trace) (sentOf trace) (givenOf trace) b) :
    Follows parser supplier name t (postsOf (trace ++ [.stepped b.phase values none]))
      (sentOf (trace ++ [.stepped b.phase values none]))
      (givenOf (trace ++ [.stepped b.phase values none])) b' := by
  rcases beginStep_none hb with ⟨hp, rfl⟩ | ⟨hp, -, rfl⟩ | ⟨hp, rfl⟩
  · refine follows_append [] rfl rfl (by rw [hp]; rfl) ?_
    rw [List.append_nil]
    exact follows_frame hf rfl rfl rfl rfl
  · refine follows_append [values] rfl rfl (by rw [hp]; rfl) ?_
    exact follows_sends hf rfl rfl rfl rfl
  · have := (situation_visible hs).1
    simp [hp] at this

theorem owed_begins {b b' : Bridge σ τ} {values : List Value} (hs : Situation ⟨b, .free⟩)
    (hb : b.beginStep values = (none, b')) (hk : Owed trace ⟨b, .free⟩) :
    Owed (trace ++ [.stepped b.phase values none]) ⟨b', .stepping⟩ := by
  obtain ⟨hphase, hjoined⟩ := situation_visible hs
  cases hk with
  | unwatched hp hsteps ha hsent hposts =>
    rcases beginStep_none hb with ⟨-, rfl⟩ | ⟨hp', -, rfl⟩ | ⟨hp', rfl⟩
    · refine .watched values [] rfl ?_ ?_ ?_
      · simp [hp, hsteps, hsent, Occurrence.step?, Occurrence.sent?]
      · simp [ha, Occurrence.answer?]
      · simp [hposts, Occurrence.post?]
    · simp [hp] at hp'
    · simp [hp] at hp'
  | suspended v ys hp hsteps ha hposts =>
    rcases beginStep_none hb with ⟨hp', rfl⟩ | ⟨-, -, rfl⟩ | ⟨hp', rfl⟩
    · simp [hp] at hp'
    · refine .watched v ys rfl ?_ ?_ ?_
      · simp [hp, hsteps, Occurrence.step?, Occurrence.sent?]
      · simp [ha, Occurrence.answer?]
      · simp [hposts, Occurrence.post?]
    · simp [hp] at hp'
  | closed v unused hj =>
    -- a load that is over answers at once
    rcases hjoined.mp hj with hp | hp <;> simp [Bridge.beginStep, hp] at hb

theorem owed_replies {b b' : Bridge σ τ} {values : List Value} {p : Progress}
    (hs : Situation ⟨b, .free⟩) (hb : b.beginStep values = (some p, b'))
    (hk : Owed trace ⟨b, .free⟩) :
    b' = b ∧ Owed (trace ++ [.stepped b.phase values (some p)]) ⟨b', .free⟩ := by
  obtain ⟨rfl, ⟨hp, hw, -⟩ | ⟨hp, rfl⟩⟩ := beginStep_some hb
  · cases hs with
    | unwatched hp' => simp [hp] at hp'
    | suspended _ _ _ _ hw' => simp [hw] at hw'
    | closed hx => simpa [hp] using hx.phase
  · refine ⟨rfl, ?_⟩
    cases hk with
    | unwatched hp' | suspended _ _ hp' => simp [hp'] at hp
    | closed v unused hj hc hsteps ha =>
      refine .closed v (unused ++ [values]) hj hc ?_ ?_
      · rcases hp with hp | hp <;> simp [hp, hsteps, Occurrence.step?, Occurrence.sent?]
      · simp [ha, Occurrence.answer?, Occurrence.post?]

theorem owed_receives {b b' : Bridge σ τ} {p : Progress} (hs : Situation ⟨b, .stepping⟩)
    (hr : Receives b p b') (hk : Owed trace ⟨b, .stepping⟩) :
    Owed (trace ++ [.answered p]) ⟨b', .free⟩ := by
  have hnothing (hw : b.worker = .exited) : b.toWorker = [] := by
    cases hs with
    | watched _ _ _ hc => exact hc
    | resumed _ _ _ _ hw' => simp [hw'] at hw
    | closed _ ho => exact absurd rfl ho
  cases hk with
  | watched v ys hp hsteps ha hposts =>
    cases hr with
    | @yielded values rest ho =>
      refine .suspended v (ys ++ [values]) rfl ?_ ?_ ?_
      · simp [hsteps, Occurrence.step?, Occurrence.sent?]
      · simp [ha, Occurrence.answer?]
      · simp [hposts, ho, Occurrence.post?]
    | @finished result rest ho hw =>
      refine .closed v [] rfl (hnothing hw) ?_ ?_
      · simp [hsteps, Occurrence.step?, Occurrence.sent?]
      · simp [ha, hposts, ho, answersTo_yielded, answersTo, Occurrence.answer?, Occurrence.post?]
    | broken ho hw =>
      have hall := answersTo_yielded ys []
      refine .closed v [] rfl (hnothing hw) ?_ ?_
      · simp [hsteps, Occurrence.step?, Occurrence.sent?]
      · simpa [ha, hposts, ho, answersTo, Occurrence.answer?, Occurrence.post?] using hall.symm

theorem faithful_move {p q : Protocol σ τ} {o : Occurrence} (h : p.Move parser supplier o q)
    (ho : o.isGivingUp = false) (hf : Faithful parser supplier name t trace p) :
    Faithful parser supplier name t (trace ++ [o]) q := by
  obtain ⟨hs, hn, hfollows, howed⟩ := hf
  have hs' := situation_move h hs
  cases h with
  | works hm =>
    have hw := works_of_workerMove? hm
    refine ⟨hs', hn, ?_, owed_works hw hs howed⟩
    simpa using follows_works hw hfollows
  | replies hb =>
    obtain ⟨rfl, howed'⟩ := owed_replies hs hb howed
    refine ⟨hs', hn, follows_append [] rfl rfl ?_ ?_, howed'⟩
    · cases hp : Bridge.phase _ <;> rfl
    · rw [List.append_nil]
      exact hfollows
  | begins hb => exact ⟨hs', by simp, follows_begins hs hb hfollows, owed_begins hs hb howed⟩
  | receives hr =>
    have hr' := receive?_iff.mp hr
    refine ⟨hs', by simp, follows_append [] rfl rfl rfl ?_, owed_receives hs hr' howed⟩
    rw [List.append_nil]
    cases hr' <;> exact follows_frame hfollows rfl rfl rfl rfl
  | givesUp => simp [Occurrence.isGivingUp] at ho
  | joins => exact absurd rfl hn

theorem faithful_run {p q : Protocol σ τ} {more : List Occurrence}
    (h : p.Run parser supplier more q) (hn : ∀ o ∈ more, o.isGivingUp = false)
    (hf : Faithful parser supplier name t trace p) :
    Faithful parser supplier name t (trace ++ more) q := by
  induction h with
  | refl => simpa using hf
  | snoc _ hm ih =>
    rw [← List.append_assoc]
    exact faithful_move hm (hn _ (by simp)) (ih fun o ho => hn o (by simp [ho]))

/-! ## 2. The answers -/

/-- When every step has been answered, the sequential load knows the answers and all that the supplier
was given. -/
theorem faithful {p : Protocol σ τ} {v : List Value} {vs : List (List Value)}
    (hf : Faithful parser supplier name t trace p) (ho : p.owner = .free)
    (hsteps : stepsOf trace = v :: vs) :
    ∃ verdict r,
      Comes parser supplier (.parsing (parser.start name)) ⟨t, vs, [], []⟩ (verdict, r) ∧
      answersOf trace = r.answers verdict ∧ givenOf trace = r.given ∧
      p.bridge.supplier = r.supplier := by
  obtain ⟨hs, -, hfollows, howed⟩ := hf
  cases howed with
  | unwatched _ hnone => simp [hnone] at hsteps
  | watched => simp at ho
  -- The load is not over: the sequential load has used up its resumes and waits.
  | @suspended b v' ys hp hsteps' ha hposts =>
    obtain ⟨rfl, rfl⟩ : v' = v ∧ sentOf trace = vs := by simpa [hsteps'] using hsteps
    cases hs with
    | unwatched hp' => simp [hp] at hp'
    | closed hx => simpa [hp] using hx.phase
    | suspended _ _ _ hc hw hto =>
      cases hfollows with
      | ended _ _ _ hw' => simp [hw] at hw'
      | going sent ys' _ _ _ hc' hposts' hx =>
        obtain rfl : sent = [] := by simpa [hc] using hc'.symm
        obtain rfl : ys = ys' := by
          have hmap : ys.map WorkerMessage.yielded = ys'.map .yielded := by
            simpa [hposts, hto] using hposts'
          exact (List.map_inj_right fun _ _ => WorkerMessage.yielded.inj).mp hmap
        refine ⟨none, ⟨_, [], ys, givenOf trace⟩, ?_, ha, rfl, rfl⟩
        have hcomes := hx [] (none, ⟨b.supplier, [], ys, givenOf trace⟩)
        rw [List.append_nil, hw] at hcomes
        exact hcomes.mpr ⟨0, finish_waits rfl⟩
  -- It is over, and the resumes that came after it were not used.
  | closed v' unused hj hc hsteps' ha =>
    obtain ⟨rfl, rfl⟩ : v' = v ∧ sentOf trace ++ unused = vs := by simpa [hsteps'] using hsteps
    cases hs with
    | unwatched _ hj' | suspended _ hj' => simp [hj'] at hj
    | closed hclosed =>
      cases hfollows with
      | going _ _ _ hw => exact absurd hclosed.exited hw
      | ended sent ys verdict _ hc' hposts hx =>
        obtain rfl : sent = [] := by simpa [hc] using hc'.symm
        refine ⟨some verdict, ⟨_, unused, ys, givenOf trace⟩, hx unused, ?_, rfl, rfl⟩
        rw [ha, hposts, answersTo_report, List.append_assoc]
        rfl

end

/-! ## 3. The steps return -/

/-- Left alone, the worker comes to rest. -/
def Rests (parser : Parser σ) (supplier : Supplier τ) (b : Bridge σ τ) : Prop :=
  ∃ n, (b.runWorker parser supplier n).workerMove? parser supplier = none

theorem rests_of_works {b b' : Bridge σ τ} (h : Works parser supplier b b')
    (hr : Rests parser supplier b') : Rests parser supplier b := by
  obtain ⟨n, hn⟩ := hr
  refine ⟨n + 1, ?_⟩
  rw [Bridge.runWorker, works_iff.mpr h]
  exact hn

theorem rests_of_exits {b : Bridge σ τ} (h : Exits parser supplier b) : Rests parser supplier b := by
  obtain ⟨n, hn⟩ := h
  exact ⟨n, workerMove?_eq_none_iff.mpr (.inl hn)⟩

theorem rests_of_parked {b : Bridge σ τ} {s : σ} (hw : b.worker = .parked s)
    (hc : b.toWorker = []) : Rests parser supplier b :=
  ⟨0, workerMove?_eq_none_iff.mpr (.inr ⟨s, hw, hc⟩)⟩

/-- If the parse has an end after the question, the worker comes to rest. -/
theorem rests_of_supplying {fuel : Nat} {x : Option Verdict × Sequential τ}
    (hparsing : ∀ (s : σ) (r : Sequential τ) (b : Bridge σ τ),
      (Worker.parsing s).finish parser supplier fuel r = some x → b.worker = .parsing s →
      b.supplier = r.supplier → b.abandoned = false → b.toWorker = [] → Rests parser supplier b)
    {s : σ} {args : List Value} {r : Sequential τ} {b : Bridge σ τ}
    (h : (Worker.supplying s args).finish parser supplier fuel r = some x)
    (hw : b.worker = .supplying s args) (hu : b.supplier = r.supplier) (ha : b.abandoned = false)
    (hc : b.toWorker = []) : Rests parser supplier b := by
  rcases hres : supplier.resume r.supplier args with ⟨supply, u⟩
  have hres' := hres
  rw [← hu] at hres'
  cases supply with
  | yielded values =>
    exact rests_of_works (.suspends hw hres') (rests_of_works (.posts rfl) (rests_of_parked rfl hc))
  | returned value =>
    rw [finish_returns hres] at h
    exact rests_of_works (.returns hw hres') (hparsing _ _ _ h rfl rfl ha hc)
  | failed message =>
    rw [finish_fails hres] at h
    exact rests_of_works (.fails hw hres') (hparsing _ _ _ h rfl rfl ha hc)
  | panicked message =>
    exact rests_of_works (.panics hw hres') (rests_of_exits (exits_of_leaving rfl))

theorem rests_of_parsing {x : Option Verdict × Sequential τ} (fuel : Nat) (s : σ)
    (r : Sequential τ) (b : Bridge σ τ)
    (h : (Worker.parsing s).finish parser supplier fuel r = some x) (hw : b.worker = .parsing s)
    (hu : b.supplier = r.supplier) (ha : b.abandoned = false) (hc : b.toWorker = []) :
    Rests parser supplier b := by
  induction fuel generalizing s r b with
  | zero => simp [Worker.finish, Parser.run] at h
  | succ n ih =>
    cases hv : parser.verdict? s with
    | some verdict => exact rests_of_exits (exits_of_verdict hw hv)
    | none =>
      rw [finish_asks hv] at h
      exact rests_of_works (.asks hw hv ha) (rests_of_supplying ih h rfl hu ha hc)

/-- A worker with nothing in its channel comes to rest if the load has an end. -/
theorem rests_of_comes {b : Bridge σ τ} {r : Sequential τ} {x : Option Verdict × Sequential τ}
    (h : Comes parser supplier b.worker r x) (hu : b.supplier = r.supplier)
    (ha : b.abandoned = false) (hc : b.toWorker = []) : Rests parser supplier b := by
  obtain ⟨n, hn⟩ := h
  cases hw : b.worker with
  | parsing s => exact rests_of_parsing n s r b (by rwa [hw] at hn) hw hu ha hc
  | supplying s args =>
    exact rests_of_supplying (rests_of_parsing n) (by rwa [hw] at hn) hw hu ha hc
  | posting s values => exact rests_of_works (.posts hw) (rests_of_parked rfl hc)
  | parked s => exact rests_of_parked hw hc
  | reporting result => exact rests_of_exits (exits_of_reporting hw)
  | leaving => exact rests_of_exits (exits_of_leaving hw)
  | exited => exact rests_of_exits (exits_of_exited hw)

section
variable {trace : List Occurrence} {name : String} {t : τ}

/-- While the owner waits for the answer to a step, the worker comes to rest, if the sequential load
with the values of the steps so far has an end. -/
theorem rests_of_stepping {b : Bridge σ τ} {later : List (List Value)}
    {x : Option Verdict × Sequential τ}
    (hf : Faithful parser supplier name t trace ⟨b, .stepping⟩)
    (hx : Comes parser supplier (.parsing (parser.start name))
      ⟨t, (stepsOf trace).tail ++ later, [], []⟩ x) :
    Rests parser supplier b := by
  obtain ⟨hs, -, hfollows, howed⟩ := hf
  cases howed with
  | watched v ys hp hsteps ha hposts =>
    rw [hsteps, List.tail_cons] at hx
    cases hfollows with
    | ended _ _ _ hw =>
      rcases hw with hw | hw
      · exact rests_of_exits (exits_of_leaving hw)
      · exact rests_of_exits (exits_of_exited hw)
    | going sent ys' _ _ ha' hc hposts' hgoing =>
      have hcomes := (hgoing later x).mp hx
      cases hs with
      | closed _ ho => exact absurd rfl ho
      | watched _ _ _ hc' => exact rests_of_comes hcomes rfl ha' hc'
      | @resumed _ s values _ _ _ hc' hw =>
        obtain rfl : sent = [values] := by
          cases sent with
          | nil => simp [hc'] at hc
          | cons v' rest => simp_all
        refine rests_of_works (.resumes hw hc') ?_
        rw [hw, List.singleton_append, comes_resumes rfl] at hcomes
        exact rests_of_comes hcomes rfl ha' rfl

/-- A step returns, with the same answer however long one waits. -/
theorem step_returns {b : Bridge σ τ} {values : List Value} {later : List (List Value)}
    {x : Option Verdict × Sequential τ}
    (hf : Faithful parser supplier name t trace ⟨b, .free⟩)
    (hx : Comes parser supplier (.parsing (parser.start name))
      ⟨t, (stepsOf trace ++ values :: later).tail, [], []⟩ x) :
    ∃ n p b', ∀ fuel ≥ n, b.step parser supplier fuel values = some (p, b') := by
  rcases hb : b.beginStep values with ⟨atOnce, b₁⟩
  cases atOnce with
  | some p => exact ⟨0, p, b₁, fun fuel _ => by rw [Bridge.step, hb]⟩
  | none =>
    have hf₁ := faithful_move (.begins hb : Protocol.Move parser supplier _ _ _) rfl hf
    have htail : (stepsOf trace ++ values :: later).tail =
        (stepsOf (trace ++ [.stepped b.phase values none])).tail ++ later := by
      cases hsteps : stepsOf trace <;> simp [hsteps, Occurrence.step?]
    rw [htail] at hx
    obtain ⟨n, hn⟩ := rests_of_stepping hf₁ hx
    -- the worker's moves until it rests do not change what the owner waits for
    obtain ⟨works, hrun, -⟩ := Protocol.run_runWorker parser supplier n b₁ .stepping
    obtain ⟨p, b', hr⟩ := receives_of_rest (situation_run hrun hf₁.situation) hn
    refine ⟨n, p, b', fun fuel hle => ?_⟩
    rw [Bridge.step, hb]
    exact (congrArg Bridge.receive? (runWorker_of_rest hn hle)).trans hr

end

/-- One step after the other: all the answers. -/
def drive {α : Type} (step : α → List Value → Option (Progress × α)) :
    α → List (List Value) → Option (List Progress × α)
  | a, [] => some ([], a)
  | a, values :: rest =>
    match step a values with
    | none => none
    | some (p, a) => (drive step a rest).map fun x => (p :: x.1, x.2)

theorem drive_cons {α : Type} {step : α → List Value → Option (Progress × α)} {a a' : α}
    {values : List Value} {p : Progress} (h : step a values = some (p, a'))
    (rest : List (List Value)) :
    drive step a (values :: rest) = (drive step a' rest).map fun x => (p :: x.1, x.2) := by
  rw [drive, h]

/-- Steps one after the other are a run. -/
theorem run_drive {fuel : Nat} {b b' : Bridge σ τ} {steps : List (List Value)}
    {answers : List Progress}
    (h : drive (fun b => b.step parser supplier fuel) b steps = some (answers, b')) :
    ∃ trace, Protocol.Run parser supplier ⟨b, .free⟩ trace ⟨b', .free⟩ ∧ stepsOf trace = steps ∧
      answersOf trace = answers ∧ ∀ o ∈ trace, o.isGivingUp = false := by
  induction steps generalizing b answers with
  | nil =>
    obtain ⟨rfl, rfl⟩ : [] = answers ∧ b = b' := by simpa [drive] using h
    exact ⟨[], .refl _, rfl, rfl, by simp⟩
  | cons values rest ih =>
    cases hs : b.step parser supplier fuel values with
    | none => simp [drive, hs] at h
    | some x =>
      obtain ⟨p, b₁⟩ := x
      simp only [drive, hs, Option.map_eq_some_iff] at h
      obtain ⟨⟨ps, b₂⟩, hd, hx⟩ := h
      obtain ⟨rfl, rfl⟩ : p :: ps = answers ∧ b₂ = b' := by simpa using hx
      obtain ⟨first, hrun, hsteps, hanswers, hn⟩ := Protocol.run_step hs
      obtain ⟨second, hrun', hsteps', hanswers', hn'⟩ := ih hd
      refine ⟨first ++ second, Protocol.run_append hrun hrun', ?_, ?_, ?_⟩
      · rw [stepsOf_append, hsteps, hsteps', List.singleton_append]
      · rw [answersOf_append, hanswers, hanswers', List.singleton_append]
      · intro o ho
        exact (List.mem_append.mp ho).elim (hn o) (hn' o)

section
variable {name : String} {t : τ}

/-- All steps return, if the sequential load has an end. -/
theorem drive_returns {trace : List Occurrence} {b : Bridge σ τ} {steps : List (List Value)}
    {x : Option Verdict × Sequential τ}
    (hf : Faithful parser supplier name t trace ⟨b, .free⟩)
    (hx : Comes parser supplier (.parsing (parser.start name))
      ⟨t, (stepsOf trace ++ steps).tail, [], []⟩ x) :
    ∃ n answers b', ∀ fuel ≥ n,
      drive (fun b => b.step parser supplier fuel) b steps = some (answers, b') := by
  induction steps generalizing trace b with
  | nil => exact ⟨0, [], b, fun _ _ => rfl⟩
  | cons values rest ih =>
    obtain ⟨n, p, b₁, hstep⟩ := step_returns hf hx
    obtain ⟨first, hrun, hsteps, -, hn⟩ := Protocol.run_step (hstep n (Nat.le_refl n))
    have hall : stepsOf trace ++ values :: rest = stepsOf (trace ++ first) ++ rest := by
      simp [hsteps]
    rw [hall] at hx
    obtain ⟨m, answers, b', hdrive⟩ := ih (faithful_run hrun hn hf) hx
    refine ⟨max n m, p :: answers, b', fun fuel hle => ?_⟩
    rw [drive_cons (hstep fuel (by omega)), hdrive fuel (by omega)]
    rfl

/-- The answers of all steps are those of the sequential load, and so is all that the supplier was
given. -/
theorem drive_eq_sequential {verdict : Option Verdict} {r : Sequential τ} {vs : List (List Value)}
    (hx : Comes parser supplier (.parsing (parser.start name)) ⟨t, vs, [], []⟩ (verdict, r))
    (v : List Value) :
    ∃ n b trace,
      (∀ fuel ≥ n, drive (fun b => b.step parser supplier fuel) (Bridge.start parser name t)
        (v :: vs) = some (r.answers verdict, b)) ∧
      (Protocol.start parser name t).Run parser supplier trace ⟨b, .free⟩ ∧
      stepsOf trace = v :: vs ∧ givenOf trace = r.given ∧ b.supplier = r.supplier := by
  have hwhole : Comes parser supplier (.parsing (parser.start name))
      ⟨t, (stepsOf [] ++ v :: vs).tail, [], []⟩ (verdict, r) := hx
  obtain ⟨n, answers, b, hdrive⟩ := drive_returns faithful_start hwhole
  obtain ⟨trace, hrun, hsteps, hanswers, hn⟩ := run_drive (hdrive n (Nat.le_refl n))
  obtain ⟨verdict', r', hx', ha, hg, hu⟩ :=
    faithful (faithful_run hrun hn faithful_start) rfl hsteps
  obtain ⟨rfl, rfl⟩ : verdict' = verdict ∧ r' = r := by
    simpa using comes_unique hx' hx
  obtain rfl : answers = r'.answers verdict' := hanswers.symm.trans ha
  exact ⟨n, b, trace, hdrive, hrun, hsteps, hg, hu⟩

end

/-! ## 4. Operations -/

/-- The answers of a load that never suspends. -/
def answersAtOnce (result : Except LoadError Value) (steps : List (List Value)) : List Progress :=
  match steps with
  | [] => []
  | _ :: rest => .done result :: rest.map fun _ => .cancelled

theorem drive_spent (fuel : Nat) (name : String) (t : τ) (steps : List (List Value)) :
    drive (fun o => Operation.step parser supplier fuel o) (.blocking name t true) steps =
      some (steps.map fun _ => .cancelled, .blocking name t true) := by
  induction steps with
  | nil => rfl
  | cons values rest ih =>
    have hstep : Operation.step parser supplier fuel (.blocking name t true) values =
        some (.cancelled, .blocking name t true) := rfl
    rw [drive_cons hstep, ih]
    rfl

theorem drive_blocking {fuel : Nat} {name : String} {t u : τ} {result : Except LoadError Value}
    (h : direct parser supplier fuel name t = some (.loaded result, u))
    (steps : List (List Value)) :
    ∃ o, drive (fun o => Operation.step parser supplier fuel o) (.blocking name t false) steps =
      some (answersAtOnce result steps, o) := by
  cases steps with
  | nil => exact ⟨_, rfl⟩
  | cons values rest =>
    have hstep : Operation.step parser supplier fuel (.blocking name t false) values =
        some (.done result, .blocking name u true) := by
      simp [Operation.step, h]
    refine ⟨.blocking name u true, ?_⟩
    rw [drive_cons hstep, drive_spent]
    rfl

theorem drive_bridged (parser : Parser σ) (supplier : Supplier τ) (fuel : Nat) (b : Bridge σ τ)
    (steps : List (List Value)) :
    drive (fun o => Operation.step parser supplier fuel o) (.bridged b) steps =
      (drive (fun b => b.step parser supplier fuel) b steps).map fun x => (x.1, .bridged x.2) := by
  induction steps generalizing b with
  | nil => rfl
  | cons values rest ih =>
    cases hs : b.step parser supplier fuel values with
    | none =>
      have hstep : Operation.step parser supplier fuel (.bridged b) values = none := by
        simp [Operation.step, hs]
      simp [drive, hs, hstep]
    | some x =>
      have hstep : Operation.step parser supplier fuel (.bridged b) values =
          some (x.1, .bridged x.2) := by
        simp [Operation.step, hs]
      rw [drive_cons hstep, drive_cons hs, ih, Option.map_map, Option.map_map]
      rfl

theorem direct_mono {fuel more : Nat} {name : String} {t u : τ} {verdict : Verdict}
    (h : direct parser supplier fuel name t = some (verdict, u)) (hle : fuel ≤ more) :
    direct parser supplier more name t = some (verdict, u) := by
  unfold direct at h ⊢
  cases hr : parser.run (readDirect supplier) fuel (parser.start name) t with
  | none => simp [hr] at h
  | some x =>
    rw [Parser.run_mono parser _ hr hle]
    rw [hr] at h
    exact h

/-- If the supplier never suspends, the two kinds of loader give equal answers. -/
theorem drive_operations {fuel : Nat} {name : String} {t u : τ} {result : Except LoadError Value}
    (hy : supplier.NeverYields t)
    (h : direct parser supplier fuel name t = some (.loaded result, u))
    (steps : List (List Value)) :
    ∃ n, ∀ more ≥ n, ∃ o o',
      drive (fun o => Operation.step parser supplier more o)
        (Loader.blocking.start parser name t) steps = some (answersAtOnce result steps, o) ∧
      drive (fun o => Operation.step parser supplier more o)
        (Loader.yieldable.start parser name t) steps = some (answersAtOnce result steps, o') := by
  cases steps with
  | nil => exact ⟨0, fun more _ => ⟨_, _, rfl, rfl⟩⟩
  | cons v vs =>
    have hseq : (sequential parser supplier fuel name vs t).map _ = _ :=
      sequential_eq_direct hy fuel vs
    rw [h, Option.map_some] at hseq
    obtain ⟨⟨verdict, r⟩, hr, hparts⟩ := Option.map_eq_some_iff.mp hseq
    obtain ⟨rfl, -, rfl, hyields⟩ :
        verdict = some (.loaded result) ∧ r.supplier = u ∧ r.resumes = vs ∧ r.yields = [] := by
      simpa using hparts
    obtain ⟨n, b, -, hdrive, -⟩ := drive_eq_sequential ⟨fuel, hr⟩ v
    refine ⟨max n fuel, fun more hle => ?_⟩
    obtain ⟨o, ho⟩ := drive_blocking (direct_mono h (by omega : fuel ≤ more)) (v :: r.resumes)
    refine ⟨o, .bridged b, ho, ?_⟩
    have hbridged := drive_bridged parser supplier more (Bridge.start parser name t)
      (v :: r.resumes)
    rw [hdrive more (by omega)] at hbridged
    refine hbridged.trans ?_
    simp [Sequential.answers, hyields, answersAtOnce, Verdict.answer]

/-! ## 5. The whole of it -/

/-- A bridged load is the plain load with its suspensions surfaced, for every parser and every supplier.

* When every step of a load that is not given up has been answered, whatever the order in which worker
  and owner moved, the sequential load with the values of all steps but the first gives these answers;
  the supplier was given the same values in the same order and is left in the same state.
* If the sequential load has an end, the worker cannot move for ever while the owner waits, and the
  steps return.
* If the supplier never suspends, the sequential load is the load at once, and the operations of the two
  loaders give equal answers on every sequence of steps. -/
theorem bridged_refines_sequential (parser : Parser σ) (supplier : Supplier τ) (name : String)
    (t : τ) :
    (∀ trace p v vs, (Protocol.start parser name t).Run parser supplier trace p →
      (∀ o ∈ trace, o.isGivingUp = false) → p.owner = .free → stepsOf trace = v :: vs →
      ∃ fuel verdict r, sequential parser supplier fuel name vs t = some (verdict, r) ∧
        answersOf trace = r.answers verdict ∧ givenOf trace = r.given ∧
        p.bridge.supplier = r.supplier) ∧
    (∀ fuel vs verdict r, sequential parser supplier fuel name vs t = some (verdict, r) →
      (∀ trace p v later, (Protocol.start parser name t).Run parser supplier trace p →
        (∀ o ∈ trace, o.isGivingUp = false) → p.owner = .stepping →
        stepsOf trace ++ later = v :: vs →
        ∃ n, ∀ works q, p.Run parser supplier works q → (∀ x ∈ works, x.isWork = true) →
          works.length ≤ n) ∧
      ∀ v, ∃ n b trace,
        (∀ more ≥ n, drive (fun b => b.step parser supplier more) (Bridge.start parser name t)
          (v :: vs) = some (r.answers verdict, b)) ∧
        (Protocol.start parser name t).Run parser supplier trace ⟨b, .free⟩ ∧
        stepsOf trace = v :: vs ∧ givenOf trace = r.given ∧ b.supplier = r.supplier) ∧
    (supplier.NeverYields t →
      (∀ fuel vs,
        (sequential parser supplier fuel name vs t).map
            (fun x => (x.1, x.2.supplier, x.2.resumes, x.2.yields)) =
          (direct parser supplier fuel name t).map (fun x => (some x.1, x.2, vs, []))) ∧
      ∀ fuel result u, direct parser supplier fuel name t = some (.loaded result, u) →
        ∀ steps, ∃ n, ∀ more ≥ n, ∃ o o',
          drive (fun o => Operation.step parser supplier more o)
            (Loader.blocking.start parser name t) steps =
              some (answersAtOnce result steps, o) ∧
          drive (fun o => Operation.step parser supplier more o)
            (Loader.yieldable.start parser name t) steps =
              some (answersAtOnce result steps, o')) := by
  refine ⟨?_, ?_, ?_⟩
  · intro trace p v vs hrun hn ho hsteps
    have hf : Faithful parser supplier name t trace p := faithful_run hrun hn faithful_start
    obtain ⟨verdict, r, ⟨fuel, hr⟩, hrest⟩ := faithful hf ho hsteps
    exact ⟨fuel, verdict, r, hr, hrest⟩
  · intro fuel vs verdict r hr
    refine ⟨?_, fun v => drive_eq_sequential ⟨fuel, hr⟩ v⟩
    rintro trace ⟨b, _⟩ v later hrun hn rfl hsteps
    have hf : Faithful parser supplier name t trace ⟨b, .stepping⟩ :=
      faithful_run hrun hn faithful_start
    have hvs : (stepsOf trace).tail ++ later = vs := by
      cases hf.owed with
      | watched v' ys _ hsteps' => simpa [hsteps'] using (List.cons.inj (hsteps' ▸ hsteps)).2
    obtain ⟨n, hrest⟩ := rests_of_stepping hf (x := (verdict, r)) (by rw [hvs]; exact ⟨fuel, hr⟩)
    exact ⟨n, fun works q hworks hall => Protocol.length_le_of_rest hworks hall hrest⟩
  · intro hy
    exact ⟨sequential_eq_direct hy, fun fuel result u h steps => drive_operations hy h steps⟩

/-- A supplier that suspends once, then returns what it is resumed with, and then ends its source. -/
def echoing : Supplier Nat where
  resume
    | 0, _ => (.yielded [.text "more"], 1)
    | 1, args => (.returned (args.headD .nil), 2)
    | n, _ => (.returned .nil, n)

/-- The values of the second step are what the load reads. -/
theorem bridged_refines_sequential_echoing :
    ∃ n b, ∀ more ≥ n,
      drive (fun b => b.step verbatim echoing more) (Bridge.start verbatim "=t" 0)
          [[], [.text "return 1"]] =
        some ([.yielded [.text "more"], .done (.ok (.function ⟨"=t", "return 1"⟩))], b) := by
  have hseq : sequential verbatim echoing 3 "=t" [[.text "return 1"]] 0 =
      some (some (.loaded (.ok (.function ⟨"=t", "return 1"⟩))),
        ⟨2, [], [[.text "more"]], [[], [.text "return 1"], []]⟩) := by
    simp [sequential, Parser.run, verbatim, readSequential, echoing, pieceOf, Sequential.give,
      Sequential.suspend]
  obtain ⟨n, b, -, hdrive, -⟩ :=
    ((bridged_refines_sequential verbatim echoing "=t" 0).2.1 3 _ _ _ hseq).2 []
  exact ⟨n, b, hdrive⟩

end ComputerHost.Load

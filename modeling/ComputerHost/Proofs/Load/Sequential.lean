import ComputerHost.Load.Operation

/-!
# What a load comes to

`sequential` runs a load from its beginning. `Worker.finish` is the same run begun in the middle, at
any point that a worker can stand at, and `Comes` says what it comes to with enough fuel.

Results:
1. `finish_asks` and the lemmas after it: a move of the worker does not change what the load comes to.
2. `comes_unique`: a load comes to one end only.
3. `sequential_eq_direct`: for a supplier that never suspends, `sequential` is `direct`.
-/

namespace ComputerHost.Load

variable {σ τ : Type}

/-! ## 1. A load from the middle -/

/-- A parse goes on with what its reader has answered. -/
def Parser.runAfter {ρ : Type} (parser : Parser σ) (read : ρ → Read × ρ) (fuel : Nat) (s : σ) :
    Read × ρ → Option (Option Verdict × ρ)
  | (.piece piece, r) => parser.run read fuel (parser.receive s piece) r
  | (.panicked message, r) => some (some (.panicked message), r)
  | (.stuck, r) => some (none, r)

/-- A parse whose supplier has suspended goes on with the next values, if there are any. -/
def Parser.runSuspended (parser : Parser σ) (supplier : Supplier τ) (fuel : Nat) (s : σ)
    (r : Sequential τ) : Option (Option Verdict × Sequential τ) :=
  match r.resumes with
  | [] => some (none, r)
  | next :: rest =>
    parser.runAfter (readSequential supplier []) fuel s
      (readSequential supplier next { r with resumes := rest })

/-- The rest of a load whose worker stands at this point. A worker that is about to leave has
forgotten its verdict. -/
def Worker.finish (parser : Parser σ) (supplier : Supplier τ) (fuel : Nat) :
    Worker σ → Sequential τ → Option (Option Verdict × Sequential τ)
  | .parsing s, r => parser.run (readSequential supplier []) fuel s r
  | .supplying s args, r =>
    parser.runAfter (readSequential supplier []) fuel s (readSequential supplier args r)
  | .posting s values, r => parser.runSuspended supplier fuel s (r.suspend values)
  | .parked s, r => parser.runSuspended supplier fuel s r
  | .reporting result, r => some (some (.loaded result), r)
  | .leaving, _ | .exited, _ => none

/-- The rest of a load comes to this with enough fuel. -/
def Comes (parser : Parser σ) (supplier : Supplier τ) (w : Worker σ) (r : Sequential τ)
    (end_ : Option Verdict × Sequential τ) : Prop :=
  ∃ fuel, w.finish parser supplier fuel r = some end_

section
variable {parser : Parser σ} {supplier : Supplier τ} {fuel : Nat} {s : σ} {r : Sequential τ}

theorem run_of_verdict {ρ : Type} {read : ρ → Read × ρ} {r : ρ} {verdict : Verdict}
    (h : parser.verdict? s = some verdict) :
    parser.run read (fuel + 1) s r = some (some verdict, r) := by
  rw [Parser.run, h]

theorem run_of_asking {ρ : Type} {read : ρ → Read × ρ} {r : ρ} (h : parser.verdict? s = none) :
    parser.run read (fuel + 1) s r = parser.runAfter read fuel s (read r) := by
  rw [Parser.run, h]
  rcases read r with ⟨answer, r'⟩
  cases answer <;> rfl

theorem finish_asks (h : parser.verdict? s = none) :
    (Worker.parsing s).finish parser supplier (fuel + 1) r =
      (Worker.supplying s []).finish parser supplier fuel r :=
  run_of_asking h

variable {args : List Value} {t : τ}

theorem finish_returns {value : Value}
    (h : supplier.resume r.supplier args = (.returned value, t)) :
    (Worker.supplying s args).finish parser supplier fuel r =
      (Worker.parsing (parser.receive s (pieceOf value))).finish parser supplier fuel
        (r.give args t) := by
  have hread : readSequential supplier args r = (.piece (pieceOf value), r.give args t) := by
    rw [readSequential, h]
  show parser.runAfter _ fuel s _ = _
  rw [hread]
  rfl

theorem finish_fails {message : String}
    (h : supplier.resume r.supplier args = (.failed message, t)) :
    (Worker.supplying s args).finish parser supplier fuel r =
      (Worker.parsing (parser.receive s (.error (.reader message)))).finish parser supplier fuel
        (r.give args t) := by
  have hread : readSequential supplier args r =
      (.piece (.error (.reader message)), r.give args t) := by
    rw [readSequential, h]
  show parser.runAfter _ fuel s _ = _
  rw [hread]
  rfl

theorem finish_panics {message : String}
    (h : supplier.resume r.supplier args = (.panicked message, t)) :
    (Worker.supplying s args).finish parser supplier fuel r =
      some (some (.panicked message), r.give args t) := by
  have hread : readSequential supplier args r = (.panicked message, r.give args t) := by
    rw [readSequential, h]
  show parser.runAfter _ fuel s _ = _
  rw [hread]
  rfl

theorem finish_suspends {values : List Value}
    (h : supplier.resume r.supplier args = (.yielded values, t)) :
    (Worker.supplying s args).finish parser supplier fuel r =
      (Worker.posting s values).finish parser supplier fuel (r.give args t) := by
  obtain ⟨u, resumes, ys, gs⟩ := r
  cases resumes with
  | nil =>
    have hread : readSequential supplier args ⟨u, [], ys, gs⟩ =
        (.stuck, (Sequential.give ⟨u, [], ys, gs⟩ args t).suspend values) := by
      rw [readSequential, h]
    rw [Worker.finish, hread]
    rfl
  | cons next rest =>
    have hread : readSequential supplier args ⟨u, next :: rest, ys, gs⟩ =
        readSequential supplier next
          { (Sequential.give ⟨u, next :: rest, ys, gs⟩ args t).suspend values with
            resumes := rest } := by
      rw [readSequential, h]
    rw [Worker.finish, hread]
    rfl

theorem finish_resumes {next : List Value} {rest : List (List Value)}
    (h : r.resumes = next :: rest) :
    (Worker.parked s).finish parser supplier fuel r =
      (Worker.supplying s next).finish parser supplier fuel { r with resumes := rest } := by
  show parser.runSuspended supplier fuel s r = _
  unfold Parser.runSuspended
  rw [h]
  rfl

theorem finish_waits (h : r.resumes = []) :
    (Worker.parked s).finish parser supplier fuel r = some (none, r) := by
  show parser.runSuspended supplier fuel s r = _
  unfold Parser.runSuspended
  rw [h]

end

section
variable {parser : Parser σ} {supplier : Supplier τ}

theorem comes_congr {w w' : Worker σ} {r r' : Sequential τ} {x : Option Verdict × Sequential τ}
    (h : ∀ fuel, w.finish parser supplier fuel r = w'.finish parser supplier fuel r') :
    Comes parser supplier w r x ↔ Comes parser supplier w' r' x :=
  exists_congr fun fuel => by rw [h fuel]

/-- A parse that has its verdict comes to it. -/
theorem comes_of_verdict {s : σ} {verdict : Verdict} {r : Sequential τ}
    {x : Option Verdict × Sequential τ} (h : parser.verdict? s = some verdict) :
    Comes parser supplier (.parsing s) r x ↔ x = (some verdict, r) := by
  constructor
  · rintro ⟨_ | n, hn⟩
    · simp [Worker.finish, Parser.run] at hn
    · rw [Worker.finish, run_of_verdict h, Option.some.injEq] at hn
      exact hn.symm
  · rintro rfl
    exact ⟨1, run_of_verdict h⟩

/-- A parse without a verdict comes to what its question comes to. -/
theorem comes_of_asking {s : σ} {r : Sequential τ} {x : Option Verdict × Sequential τ}
    (h : parser.verdict? s = none) :
    Comes parser supplier (.parsing s) r x ↔ Comes parser supplier (.supplying s []) r x := by
  constructor
  · rintro ⟨_ | n, hn⟩
    · simp [Worker.finish, Parser.run] at hn
    · rw [finish_asks h] at hn
      exact ⟨n, hn⟩
  · rintro ⟨n, hn⟩
    exact ⟨n + 1, (finish_asks h).trans hn⟩

theorem comes_reporting {result : Except LoadError Value} {r : Sequential τ}
    {x : Option Verdict × Sequential τ} :
    Comes parser supplier (.reporting result) r x ↔ x = (some (.loaded result), r) := by
  constructor
  · rintro ⟨_, hn⟩
    exact (Option.some.inj hn).symm
  · rintro rfl
    exact ⟨0, rfl⟩

theorem comes_resumes {s : σ} {r : Sequential τ} {x : Option Verdict × Sequential τ}
    {next : List Value} {rest : List (List Value)} (h : r.resumes = next :: rest) :
    Comes parser supplier (.parked s) r x ↔
      Comes parser supplier (.supplying s next) { r with resumes := rest } x :=
  comes_congr fun _ => finish_resumes h

/-! ## 2. One end only -/

theorem comes_unique {s : σ} {r : Sequential τ} {x y : Option Verdict × Sequential τ}
    (hx : Comes parser supplier (.parsing s) r x) (hy : Comes parser supplier (.parsing s) r y) :
    x = y := by
  obtain ⟨n, hn⟩ := hx
  obtain ⟨m, hm⟩ := hy
  have hx := Parser.run_mono parser _ hn (Nat.le_max_left n m)
  have hy := Parser.run_mono parser _ hm (Nat.le_max_right n m)
  exact Option.some.inj (hx.symm.trans hy)

/-! ## 3. Suppliers that never suspend -/

/-- `supplier.Reaches t u`: resumed so and so often, with whatever values, the supplier comes from `t`
to `u`. -/
inductive Supplier.Reaches (supplier : Supplier τ) (t : τ) : τ → Prop
  | refl : Reaches supplier t t
  | resumed {u : τ} (args : List Value) :
      Reaches supplier t u → Reaches supplier t (supplier.resume u args).2

/-- From here on the supplier suspends no more, whatever it is resumed with. -/
def Supplier.NeverYields (supplier : Supplier τ) (t : τ) : Prop :=
  ∀ u, supplier.Reaches t u → ∀ args values, (supplier.resume u args).1 ≠ .yielded values

/-- A reader that continues a supplier answers as the one that does not, if the supplier never
suspends. -/
theorem readSequential_of_neverYields {t : τ} (hy : supplier.NeverYields t) {r : Sequential τ}
    (hr : supplier.Reaches t r.supplier) :
    readSequential supplier [] r =
      ((readDirect supplier r.supplier).1, r.give [] (readDirect supplier r.supplier).2) := by
  rcases h : supplier.resume r.supplier [] with ⟨supply, u⟩
  rw [readSequential, readDirect, h]
  cases supply with
  | yielded values => exact absurd (congrArg Prod.fst h) (hy _ hr [] values)
  | _ => rfl

theorem readDirect_snd (supplier : Supplier τ) (t : τ) :
    (readDirect supplier t).2 = (supplier.resume t []).2 := by
  unfold readDirect
  rcases supplier.resume t [] with ⟨supply, u⟩
  cases supply <;> rfl

theorem readDirect_ne_stuck (supplier : Supplier τ) (t : τ) :
    (readDirect supplier t).1 ≠ .stuck := by
  unfold readDirect
  rcases supplier.resume t [] with ⟨supply, u⟩
  cases supply <;> simp

theorem run_readDirect_ne_none {fuel : Nat} {s : σ} {t u : τ} :
    parser.run (readDirect supplier) fuel s t ≠ some (none, u) := by
  induction fuel generalizing s t with
  | zero => simp [Parser.run]
  | succ n ih =>
    cases hv : parser.verdict? s with
    | some verdict => simp [run_of_verdict hv]
    | none =>
      rw [run_of_asking hv]
      rcases hr : readDirect supplier t with ⟨answer, t'⟩
      cases answer with
      | piece piece => exact ih
      | panicked message => simp [Parser.runAfter]
      | stuck => exact absurd (congrArg Prod.fst hr) (readDirect_ne_stuck supplier t)

theorem run_readSequential {t : τ} (hy : supplier.NeverYields t) {fuel : Nat} {s : σ}
    {r : Sequential τ} (hr : supplier.Reaches t r.supplier) :
    (parser.run (readSequential supplier []) fuel s r).map
        (fun x => (x.1, x.2.supplier, x.2.resumes, x.2.yields)) =
      (parser.run (readDirect supplier) fuel s r.supplier).map
        (fun x => (x.1, x.2, r.resumes, r.yields)) := by
  induction fuel generalizing s r with
  | zero => rfl
  | succ n ih =>
    cases hv : parser.verdict? s with
    | some verdict => simp [run_of_verdict hv]
    | none =>
      rw [run_of_asking hv, run_of_asking hv, readSequential_of_neverYields hy hr]
      have hreach : supplier.Reaches t (readDirect supplier r.supplier).2 := by
        rw [readDirect_snd]
        exact hr.resumed []
      rcases hd : readDirect supplier r.supplier with ⟨answer, u⟩
      rw [hd] at hreach
      cases answer with
      | piece piece => exact ih (r := r.give [] u) hreach
      | panicked message => rfl
      | stuck => rfl

/-- If the supplier never suspends, a load with values for its suspensions is a load without: it has
the same verdict and leaves the supplier in the same state, with all the values unused. -/
theorem sequential_eq_direct {name : String} {t : τ} (hy : supplier.NeverYields t) (fuel : Nat)
    (vs : List (List Value)) :
    (sequential parser supplier fuel name vs t).map
        (fun x => (x.1, x.2.supplier, x.2.resumes, x.2.yields)) =
      (direct parser supplier fuel name t).map (fun x => (some x.1, x.2, vs, [])) := by
  unfold sequential direct
  rw [run_readSequential hy .refl]
  cases hd : parser.run (readDirect supplier) fuel (parser.start name) t with
  | none => rfl
  | some x =>
    obtain ⟨_ | verdict, u⟩ := x
    · exact absurd hd run_readDirect_ne_none
    · rfl

end

end ComputerHost.Load

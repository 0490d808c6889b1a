import ComputerHost.Load.Basic

/-! # Loading at once

A parse that runs to its end without a break, against a reader that has an answer to every question.
`direct` reads from a supplier and takes a suspension for a failure. `sequential` continues a
suspended supplier at once with values known beforehand; it says what a load that may be suspended
has to come to.

A parser may ask for ever, so runs are bounded; more steps than enough change nothing
(`run_mono`).
-/

namespace ComputerHost.Load

variable {σ τ ρ : Type}

/-- What a reader answers. -/
inductive Read where
  | piece (piece : Piece)
  | panicked (message : String)
  /-- The reader cannot say. -/
  | stuck

/-- Run a parser against a reader, for at most so many questions: its verdict, or none if the reader
is stuck, and the reader afterwards. -/
def Parser.run (parser : Parser σ) (read : ρ → Read × ρ) : Nat → σ → ρ → Option (Option Verdict × ρ)
  | 0, _, _ => none
  | fuel + 1, s, r =>
    match parser.verdict? s with
    | some verdict => some (some verdict, r)
    | none =>
      match read r with
      | (.piece piece, r) => parser.run read fuel (parser.receive s piece) r
      | (.panicked message, r) => some (some (.panicked message), r)
      | (.stuck, r) => some (none, r)

theorem Parser.run_mono (parser : Parser σ) (read : ρ → Read × ρ) {fuel more : Nat} {s : σ} {r : ρ}
    {answer : Option Verdict × ρ} (h : parser.run read fuel s r = some answer)
    (hle : fuel ≤ more) : parser.run read more s r = some answer := by
  induction fuel generalizing more s r with
  | zero => simp [run] at h
  | succ n ih =>
    obtain ⟨m, rfl⟩ : ∃ m, more = m + 1 := ⟨more - 1, by omega⟩
    simp only [run] at h ⊢
    cases hv : parser.verdict? s with
    | some v => simpa [hv] using h
    | none =>
      simp only [hv] at h ⊢
      rcases hr : read r with ⟨answered, r'⟩
      cases answered <;> simp only [hr] at h ⊢
      · exact ih h (by omega)
      · exact h
      · exact h

/-- A reader that takes a suspension for a failure. -/
def readDirect (supplier : Supplier τ) (t : τ) : Read × τ :=
  match supplier.resume t [] with
  | (.returned value, t) => (.piece (pieceOf value), t)
  | (.failed message, t) => (.piece (.error (.reader message)), t)
  | (.yielded _, t) =>
    (.piece (.error (.reader "attempt to yield across a C-call boundary")), t)
  | (.panicked message, t) => (.panicked message, t)

/-- Load at once. A supplier that suspends fails the load. -/
def direct (parser : Parser σ) (supplier : Supplier τ) (fuel : Nat) (name : String) (t : τ) :
    Option (Verdict × τ) :=
  match parser.run (readDirect supplier) fuel (parser.start name) t with
  | some (some verdict, t) => some (verdict, t)
  | _ => none

/-- A supplier, the values that its suspensions will be resumed with, what it has suspended with so
far, and what it has been given so far. -/
structure Sequential (τ : Type) where
  supplier : τ
  resumes : List (List Value)
  yields : List (List Value)
  given : List (List Value)

/-- The supplier has been given values. -/
def Sequential.give (r : Sequential τ) (args : List Value) (t : τ) : Sequential τ :=
  { r with supplier := t, given := r.given ++ [args] }

/-- The supplier has suspended. -/
def Sequential.suspend (r : Sequential τ) (values : List Value) : Sequential τ :=
  { r with yields := r.yields ++ [values] }

/-- A reader that continues a suspended supplier at once. It is stuck when it does not know the values
to continue with. -/
def readSequential (supplier : Supplier τ) (args : List Value) (r : Sequential τ) :
    Read × Sequential τ :=
  match supplier.resume r.supplier args with
  | (.returned value, t) => (.piece (pieceOf value), r.give args t)
  | (.failed message, t) => (.piece (.error (.reader message)), r.give args t)
  | (.panicked message, t) => (.panicked message, r.give args t)
  | (.yielded values, t) =>
    match _h : r.resumes with
    | [] => (.stuck, (r.give args t).suspend values)
    | next :: rest =>
      readSequential supplier next { (r.give args t).suspend values with resumes := rest }
termination_by r.resumes.length
decreasing_by simp [*]

/-- Load at once, with the values for every suspension given beforehand. -/
def sequential (parser : Parser σ) (supplier : Supplier τ) (fuel : Nat) (name : String)
    (resumes : List (List Value)) (t : τ) : Option (Option Verdict × Sequential τ) :=
  parser.run (readSequential supplier []) fuel (parser.start name) ⟨t, resumes, [], []⟩

end ComputerHost.Load

import ComputerHost.Error
import ComputerHost.Value

/-! # Loading source

A program loads source text through a function of its own, the supplier, which hands it over piece by
piece and may fail, suspend or panic instead. A parser asks for pieces until it has made up its mind;
it may go on asking after a piece could not be had.

Both are state machines whose states are data: a supplier is resumed with values, a parser receives
pieces. `pieceOf` is the rule between them.
-/

namespace ComputerHost.Load

/-- What a supplier does when it is resumed. -/
inductive Supply where
  /-- It suspends with these values and wants to be resumed. -/
  | yielded (values : List Value)
  /-- It returns the next piece. -/
  | returned (value : Value)
  | failed (message : String)
  | panicked (message : String)
deriving DecidableEq, Repr

/-- A supplier with states `τ`. Resumed after it has returned it starts over with the next piece;
resumed after it has suspended it goes on with the values. -/
structure Supplier (τ : Type) where
  resume : τ → List Value → Supply × τ

/-- A piece of source, `none` at the end of it. -/
abbrev Piece := Except LoadError (Option String)

/-- Nil and the empty text end the source, a text is a piece, a number is a piece by its text, and
nothing else is. -/
def pieceOf : Value → Piece
  | .nil => .ok none
  | .text s => .ok (if s = "" then none else some s)
  | .integer i => .ok (some (Value.integer i).display)
  | .number x => .ok (some (Value.number x).display)
  | _ => .error (.reader "reader function must return a string")

/-- How a parse ends. -/
inductive Verdict where
  | loaded (result : Except LoadError Value)
  | panicked (message : String)

/-- A parser with states `σ`: where it starts for a chunk name, whether it has ended, and what it
does with the piece it asked for. -/
structure Parser (σ : Type) where
  start : String → σ
  verdict? : σ → Option Verdict
  receive : σ → Piece → σ

/-- The states of the parser that keeps its source as it is. -/
inductive Verbatim where
  | reading (name source : String)
  | ended (result : Except LoadError Value)

/-- The parser that reads every piece and keeps the source as it is. -/
def verbatim : Parser Verbatim where
  start name := .reading name ""
  verdict?
    | .reading _ _ => none
    | .ended result => some (.loaded result)
  receive
    | .reading name source, .ok (some piece) => .reading name (source ++ piece)
    | .reading name source, .ok none => .ended (.ok (.function ⟨name, source⟩))
    | .reading _ _, .error e => .ended (.error e)
    | .ended result, _ => .ended result

/-- What driving a load one step further answers. -/
inductive Progress where
  /-- The supplier suspended with these values. -/
  | yielded (values : List Value)
  | done (result : Except LoadError Value)
  | panicked (message : String)

/-- The answer to whoever drives a load that is over or given up. -/
def Progress.cancelled : Progress := .done (.error .cancelled)

end ComputerHost.Load

import ComputerHost.Load.Basic

/-! # Parsers

Parsers beside the one that keeps its source, and ways to make a parser from another one.
-/

namespace ComputerHost.Load

variable {σ : Type}

/-- The parser that ends with a value before it has read anything. -/
def constant (v : Value) : Parser Unit where
  start _ := ()
  verdict? _ := some (.loaded (.ok v))
  receive _ _ := ()

/-- The parser that ends with the first piece as a text, or with nil if there is none. -/
def firstPiece : Parser (Option (Except LoadError Value)) where
  start _ := none
  verdict? result := result.map .loaded
  receive _ piece := some (piece.map fun p => (p.map Value.text).getD .nil)

namespace Parser

/-- A parser whose results are changed by a function. -/
def mapResult (parser : Parser σ) (f : Except LoadError Value → Except LoadError Value) :
    Parser σ where
  start := parser.start
  verdict? s := (parser.verdict? s).map fun
    | .loaded result => .loaded (f result)
    | .panicked message => .panicked message
  receive := parser.receive

/-- A parser that may start over. -/
structure Retry (σ : Type) where
  name : String
  mayRetry : Bool
  state : σ

/-- A parser that starts over with the rest of the source when it has failed once. -/
def retry (parser : Parser σ) : Parser (Retry σ) where
  start name := ⟨name, true, parser.start name⟩
  verdict? r := parser.verdict? r.state
  receive r piece :=
    let state := parser.receive r.state piece
    match r.mayRetry, parser.verdict? state with
    | true, some (.loaded (.error _)) => ⟨r.name, false, parser.start r.name⟩
    | _, _ => { r with state }

end Parser

end ComputerHost.Load

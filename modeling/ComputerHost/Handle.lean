/-! # Identities

Computer ids are used again: a computer can be stopped and started under the same id. A handle
therefore carries a generation as well, which is drawn afresh for every construction, so that two
handles are equal only if they name the same instance. Timers are numbered the same way.

The numbers have no bound here. A machine that keeps them in 64 bits would have to construct a computer or
start a timer 2⁶⁴ times before two of them could be the same.
-/

namespace ComputerHost

/-- The identity of one instance of a computer. -/
structure Handle where
  id : UInt32
  generation : Nat
deriving DecidableEq, Repr, Inhabited

/-- The text of a handle. -/
def Handle.text (h : Handle) : String :=
  s!"{h.id.toNat}#{h.generation}"

/-- The identity of a timer. -/
structure TimerId where
  number : Nat
deriving DecidableEq, Repr, Inhabited

/-- The numbers that the next instance and the next timer will get, without a bound. -/
structure Counters where
  generation : Nat
  timer : Nat
deriving DecidableEq, Repr

namespace Counters

/-- Numbering starts at one. -/
def start : Counters := ⟨1, 1⟩

instance : Inhabited Counters := ⟨start⟩

/-- A handle for a new instance of a computer. -/
def newHandle (c : Counters) (id : UInt32) : Handle × Counters :=
  (⟨id, c.generation⟩, { c with generation := c.generation + 1 })

/-- An identity for a new timer. -/
def newTimer (c : Counters) : TimerId × Counters :=
  (⟨c.timer⟩, { c with timer := c.timer + 1 })

theorem generation_newHandle (c : Counters) (id : UInt32) :
    (c.newHandle id).1.generation < (c.newHandle id).2.generation := by
  simp [newHandle]

theorem number_newTimer (c : Counters) : c.newTimer.1.number < c.newTimer.2.timer := by
  simp [newTimer]

end Counters

end ComputerHost

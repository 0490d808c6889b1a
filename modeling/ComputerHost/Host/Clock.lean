import ComputerHost.Host.Basic

/-! # Timers at work

A computer's timers are known to the computer and to the timer service. The service hands a timer whose
moment has come to the host (`sweep`), which looks for its owner (`resolveDue?`) and lets it decide
(`fire?`). Before each of these the owner may have cancelled the timer or be gone; then the timer comes to
nothing. Timers are delivered one after the other.
-/

namespace ComputerHost.Host

/-- Give the service a timer of a computer, if the computer still has its host. -/
def schedule (h : Host) (who : Handle) (id : TimerId) (fireAt : Nat) (e : Event) : Host :=
  { h with timers := h.timers.schedule ⟨fireAt, id, who, e⟩ }

def hasHost (h : Host) (who : Handle) : Bool :=
  ((h.computer? who).map (·.hasHost)).getD false

/-- The event of a timer. -/
def timerEvent (id : TimerId) : Event := ⟨"timer", [.integer (Int64.ofNat id.number)]⟩

/-- Start a timer. -/
def startTimer (h : Host) (who : Handle) (ms : Nat) : TimerId × Host :=
  let (id, counters) := h.counters.newTimer
  let h := { h with counters }.modify who (·.trackTimer id)
  (id, if h.hasHost who then h.schedule who id (h.clock + ms) (timerEvent id) else h)

/-- Cancel a timer, and whether it was running. -/
def cancelTimer (h : Host) (who : Handle) (id : TimerId) : Bool × Host :=
  let (was, h) := h.update who (·.dropTimer id) false
  (was, if was && h.hasHost who then { h with timers := h.timers.cancel id } else h)

/-- Queue an event after a delay, in place of a debounced event that is still to come. -/
def debounce (h : Host) (who : Handle) (ms : Nat) (e : Event) : TimerId × Host :=
  let (id, counters) := h.counters.newTimer
  let (previous, h) := { h with counters }.update who (·.armDebounce id) none
  let h :=
    if h.hasHost who then
      let timers := match previous with
        | some old => h.timers.cancel old
        | none => h.timers
      { h with timers }.schedule who id (h.clock + ms) e
    else h
  (id, h)

/-- Take the timers whose moment has come from the service. -/
def sweep (h : Host) : Host :=
  let (fired, timers) := h.timers.sweep h.clock
  { h with timers, due := h.due ++ fired }

/-- Look for the owner of the first timer that was taken from the service, if there is one and the timer
before it has fired. -/
def resolveDue? (h : Host) : Option Host :=
  match h.firing, h.due with
  | none, entry :: due =>
    let (owner, registry) := h.registry.resolveTimer entry.id entry.owner
    some { h with due, registry, firing := owner.map fun _ => entry }
  | _, _ => none

/-- Let the owner of a timer that was found decide about its event. The owner may be gone by now. -/
def fire? (h : Host) : Option Host :=
  h.firing.map fun entry =>
    { h with firing := none }.modify entry.owner (·.timerFired entry.id entry.event)

end ComputerHost.Host

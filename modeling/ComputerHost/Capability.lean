import ComputerHost.HostConfig

/-! # Capabilities

A host settles once per boot what a computer may do. A library, or one function of it, that needs a
capability which is not granted is never opened.

A set of capabilities keeps its members in the order of `Capability.all`, so that equal sets are
equal values; `mem_insert`, `mem_erase` and `mem_resolve` say what is in them.
-/

namespace ComputerHost

/-- Something that a library or a function of one may need. -/
inductive Capability where
  | config
  | mounter
  | peripheralEmulation
  | graphics
  | http
  | httpListener
  | debug
  | breakpoints
  | debugger
deriving DecidableEq, Repr

namespace Capability

def all : List Capability :=
  [.config, .mounter, .peripheralEmulation, .graphics, .http, .httpListener, .debug,
   .breakpoints, .debugger]

@[simp] theorem mem_all (c : Capability) : c ∈ all := by
  cases c <;> decide

def name : Capability → String
  | .config => "Config"
  | .mounter => "Mounter"
  | .peripheralEmulation => "PeripheralEmulation"
  | .graphics => "Graphics"
  | .http => "Http"
  | .httpListener => "HttpListener"
  | .debug => "Debug"
  | .breakpoints => "Breakpoints"
  | .debugger => "Debugger"

def ofName? (s : String) : Option Capability :=
  all.find? (·.name == s)

end Capability

/-- The capabilities that are granted. -/
structure CapabilitySet where
  granted : List Capability
deriving DecidableEq, Repr

namespace CapabilitySet

/-- The capabilities with a property. -/
def ofPred (p : Capability → Bool) : CapabilitySet := ⟨Capability.all.filter p⟩

instance : Membership Capability CapabilitySet := ⟨fun s c => c ∈ s.granted⟩

instance (s : CapabilitySet) (c : Capability) : Decidable (c ∈ s) :=
  inferInstanceAs (Decidable (c ∈ s.granted))

@[simp] theorem mem_ofPred (p : Capability → Bool) (c : Capability) :
    c ∈ ofPred p ↔ p c = true := by
  change c ∈ Capability.all.filter p ↔ _
  simp

def empty : CapabilitySet := ⟨[]⟩

instance : Inhabited CapabilitySet := ⟨empty⟩

def all : CapabilitySet := ofPred fun _ => true

def insert (s : CapabilitySet) (c : Capability) : CapabilitySet :=
  ofPred fun d => d = c ∨ d ∈ s

def erase (s : CapabilitySet) (c : Capability) : CapabilitySet :=
  ofPred fun d => d ≠ c ∧ d ∈ s

@[simp] theorem not_mem_empty (c : Capability) : c ∉ empty :=
  List.not_mem_nil

@[simp] theorem mem_universal (c : Capability) : c ∈ all := by
  simp [all]

@[simp] theorem mem_insert (s : CapabilitySet) (c d : Capability) :
    d ∈ s.insert c ↔ d = c ∨ d ∈ s := by
  simp [insert]

@[simp] theorem mem_erase (s : CapabilitySet) (c d : Capability) :
    d ∈ s.erase c ↔ d ≠ c ∧ d ∈ s := by
  simp [erase]

def isEmpty (s : CapabilitySet) : Bool := s.granted.isEmpty

/-- Is something allowed that needs this? -/
def allows (s : CapabilitySet) (requires : Option Capability) : Bool :=
  match requires with
  | none => true
  | some c => decide (c ∈ s)

/-- The names of the members between braces. -/
def text (s : CapabilitySet) : String :=
  "\x7b" ++ String.intercalate ", " (s.granted.map Capability.name) ++ "\x7d"

/-- Is a capability granted to a computer under these settings? -/
def grants (config : HostConfig) (isDebugger : Bool) : Capability → Bool
  | .config | .peripheralEmulation | .graphics => !config.vanilla
  | .mounter => !config.vanilla && !config.serverMode
  | .http => config.httpEnable
  | .httpListener => config.httpEnable && !config.vanilla && !config.serverMode
  | .debug => config.debugEnable
  | .breakpoints => config.debugEnable && !config.vanilla
  | .debugger => isDebugger

/-- The capabilities of a computer under these settings. -/
def resolve (config : HostConfig) (isDebugger : Bool) : CapabilitySet :=
  ofPred (grants config isDebugger)

theorem mem_resolve (config : HostConfig) (isDebugger : Bool) (c : Capability) :
    c ∈ resolve config isDebugger ↔ grants config isDebugger c = true := by
  simp [resolve]

end CapabilitySet

end ComputerHost

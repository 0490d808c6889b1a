import ComputerHost.Capability

/-! # Libraries

A library is a named bundle of functions that the host opens into an interpreter. The library as a
whole and each of its functions may need a capability; what is not granted is left out.
-/

namespace ComputerHost

/-- A function of a library. -/
structure Surface where
  name : String
  requires : Option Capability
deriving DecidableEq, Repr

structure Library where
  name : String
  /-- What the library as a whole needs. -/
  requires : Option Capability
  surfaces : List Surface
  /-- Has it work of its own to do when a boot ends? -/
  cleansUp : Bool
deriving DecidableEq, Repr

namespace Library

/-- The names of the functions that are allowed, in order. -/
def exposed (l : Library) (caps : CapabilitySet) : List String :=
  (l.surfaces.filter fun s => caps.allows s.requires).map (·.name)

/-- A character inside the quoted name of a library. -/
def quoteChar (c : Char) : List Char :=
  if c = '"' ∨ c = '\\' then ['\\', c]
  else if c = '\n' then ['\\', 'n']
  else if c = '\r' then ['\\', 'r']
  else if c = '\t' then ['\\', 't']
  else if c = '\x00' then ['\\', '0']
  else if c.toNat < 32 ∨ (127 ≤ c.toNat ∧ c.toNat < 160) ∨ (Text.isBlank c ∧ c ≠ ' ') then
    ['\\', 'u', '\x7b'] ++ Nat.toDigits 16 c.toNat ++ ['\x7d']
  else [c]

/-- The text that names a library and what it needs. -/
def describe (l : Library) : String :=
  let name := String.ofList (l.name.toList.flatMap quoteChar)
  let requires := match l.requires with
    | none => "None"
    | some c => "Some(" ++ c.name ++ ")"
  "Library \x7b name: \"" ++ name ++ "\", requires: " ++ requires ++ " \x7d"

/-- Functions that need nothing. -/
def plain (names : List String) : List Surface := names.map (⟨·, none⟩)

/-- Functions that need the same capability. -/
def gated (c : Capability) (names : List String) : List Surface := names.map (⟨·, some c⟩)

/-- A library that comes with every host. -/
def builtIn (name : String) (requires : Option Capability) (surfaces : List Surface) : Library :=
  ⟨name, requires, surfaces, false⟩

/-- The libraries that every host has, in the order they are opened. -/
def standard : List Library :=
  [builtIn "config" (some .config) (plain ["get", "set", "list", "getType"]),
   builtIn "fs" none
    (plain ["list", "exists", "isDir", "open", "delete", "move", "copy", "makeDir"]),
   builtIn "mounter" (some .mounter) (plain ["mount", "unmount", "list"]),
   builtIn "os" none
    (plain ["queueEvent", "startTimer", "cancelTimer", "clock", "time", "date", "getComputerID",
      "getComputerLabel", "setComputerLabel", "shutdown", "reboot"]),
   builtIn "peripheral" none (plain ["isPresent", "getType", "getMethods", "call"]),
   builtIn "periphemu" (some .peripheralEmulation) (plain ["create", "remove"]),
   builtIn "redstone" none (plain ["getSides", "getInput", "setOutput", "getOutput"]),
   builtIn "term" none
    (plain ["write", "scroll", "setCursorPos", "getCursorPos", "setCursorBlink", "getSize", "clear",
      "clearLine", "setTextColor", "setBackgroundColor", "isColor", "blit", "setPaletteColor",
      "getPaletteColor"] ++
    gated .graphics ["getGraphicsMode", "setGraphicsMode", "getPixel", "setPixel", "drawPixels",
      "getPixels", "screenshot", "showMouse", "setFrozen", "getFrozen"]),
   builtIn "http" (some .http)
    (plain ["request", "checkURL", "websocket"] ++
    gated .httpListener ["addListener", "removeListener"]),
   builtIn "debug" (some .debug)
    (plain ["traceback", "getinfo", "getlocal", "sethook", "gethook"] ++
    gated .breakpoints ["setbreakpoint", "unsetbreakpoint"]),
   builtIn "debugger" (some .debugger)
    (plain ["waitForBreak", "continue", "step", "getReason", "setBreakpoint"])]

/-- The libraries that are allowed, in order, each with the functions that are. -/
def opened (libraries : List Library) (caps : CapabilitySet) : List (Library × List String) :=
  (libraries.filter fun l => caps.allows l.requires).map fun l => (l, l.exposed caps)

/-- The globals of the base library that no program sees. -/
def hiddenGlobals (config : HostConfig) : List String :=
  ["dofile", "loadfile", "module", "require", "package", "print"] ++
    (if config.debugEnable then [] else ["collectgarbage", "newproxy"])

end Library

end ComputerHost

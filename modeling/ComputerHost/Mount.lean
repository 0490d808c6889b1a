import ComputerHost.Text

/-! # Mounts

Host directories that appear inside a computer. A policy, host-wide or of one mount, says whether a
requested mount may be made and whether it is read-only.
-/

namespace ComputerHost

/-- What the host allows to mounts that are asked for. -/
inductive MountMode where
  /-- No such mounts. -/
  | none
  /-- Read-only, whatever a mount asks for. -/
  | readOnlyStrict
  /-- Read-only unless a mount asks otherwise. -/
  | readOnly
  | readWrite
deriving DecidableEq, Repr, Inhabited

/-- What one mount asks for. -/
inductive MountPolicy where
  /-- Follow the host's mode. -/
  | default
  | forceReadOnly
  | forceReadWrite
deriving DecidableEq, Repr, Inhabited

namespace MountMode

/-- The spelling in settings. -/
def name : MountMode → String
  | .none => "none"
  | .readOnlyStrict => "ro_strict"
  | .readOnly => "ro"
  | .readWrite => "rw"

def all : List MountMode := [.none, .readOnlyStrict, .readOnly, .readWrite]

def ofName? (s : String) : Option MountMode :=
  all.find? (·.name == s)

theorem ofName?_name (m : MountMode) : ofName? m.name = some m := by
  cases m <;> decide

end MountMode

namespace MountPolicy

/-- The spelling in settings. -/
def name : MountPolicy → String
  | .default => "default"
  | .forceReadOnly => "force_read_only"
  | .forceReadWrite => "force_read_write"

def all : List MountPolicy := [.default, .forceReadOnly, .forceReadWrite]

def ofName? (s : String) : Option MountPolicy :=
  all.find? (·.name == s)

theorem ofName?_name (p : MountPolicy) : ofName? p.name = some p := by
  cases p <;> decide

/-- Is a mount made read-only? `none` if it may not be made at all. -/
def readOnly? (p : MountPolicy) (mode : MountMode) : Option Bool :=
  match p with
  | .forceReadOnly => some true
  | .forceReadWrite => some false
  | .default =>
    match mode with
    | .none => none
    | .readWrite => some false
    | .readOnly | .readOnlyStrict => some true

end MountPolicy

/-- A directory that appears inside a computer. -/
structure Mount where
  point : String
  hostPath : String
  readOnly : Bool
deriving DecidableEq, Repr

/-- The mounts of one computer, in the order they were made. -/
structure MountTable where
  mounts : List Mount
deriving DecidableEq, Repr

namespace MountTable

def empty : MountTable := ⟨[]⟩

instance : Inhabited MountTable := ⟨empty⟩

/-- A mount point is written without slashes around it. -/
def trimPoint (point : String) : String :=
  Text.withoutBoth '/' point

/-- Mount a host directory. Refused if it is no directory or the mount point is taken. -/
def mount? (t : MountTable) (isDirectory : String → Bool) (hostPath point : String)
    (readOnly : Bool) : Option MountTable :=
  let point := trimPoint point
  if !isDirectory hostPath || t.mounts.any (·.point == point) then none
  else some ⟨t.mounts ++ [⟨point, hostPath, readOnly⟩]⟩

end MountTable

end ComputerHost

import ComputerHost.TomlTree.Basic

/-! # Drafts of tables

A table need not be written in one place: its header, dotted keys and the headers of tables inside it
all add to it. A draft is a table in the making. It remembers how it came into being, because that
decides who may still add to it: a table with a header of its own has no second one, and a dotted key
goes only through tables that dotted keys or longer headers have made.
-/

namespace ComputerHost.TomlTree

/-- How a table came into being. -/
inductive Origin where
  /-- It has a header, or is the document, an inline table or an item of an array of tables. -/
  | header
  /-- It is on the path of another header. -/
  | path
  /-- It is on the path of a dotted key. -/
  | dotted
deriving DecidableEq, Repr

inductive Draft where
  | value (v : TomlTree)
  | table (origin : Origin) (entries : List (String × Draft))
  /-- An array of tables; only the last one is still added to. -/
  | tables (closed : List (List (String × Draft))) (last : List (String × Draft))

namespace Draft

abbrev Entries := List (String × Draft)

/-- The entries with another draft under a name. -/
def replace (entries : Entries) (name : String) (draft : Draft) : Entries :=
  entries.map fun (n, old) => if n = name then (n, draft) else (n, old)

/-- Change the table at the end of a path. Tables on the way that are missing come into being; a value
is in the way, and a dotted key does not go through a table with a header. -/
def changeAt? (dotted : Bool) (change : Origin → Entries → Option Entries) :
    List String → Origin → Entries → Option Entries
  | [], origin, entries => change origin entries
  | name :: rest, _, entries =>
    match entries.lookup name with
    | none =>
      let origin := if dotted then Origin.dotted else Origin.path
      (changeAt? dotted change rest origin []).map fun inner =>
        entries ++ [(name, .table origin inner)]
    | some (.value _) => none
    | some (.tables closed last) =>
      (changeAt? dotted change rest .header last).map fun last =>
        replace entries name (.tables closed last)
    | some (.table origin inner) =>
      if dotted && origin == .header then none
      else
        (changeAt? dotted change rest origin inner).map fun inner =>
          replace entries name (.table origin inner)

/-- Add a value under a dotted key. The table it goes into was made by dotted keys exactly if the key
has a dot. -/
def addValue? (path : List String) (name : String) (v : TomlTree) (entries : Entries) :
    Option Entries :=
  changeAt? true (fun origin table =>
    if (origin == .dotted) == path.isEmpty || (table.lookup name).isSome then none
    else some (table ++ [(name, .value v)])) path .header entries

/-- Begin a table with a header. -/
def addTable? (path : List String) (name : String) (entries : Entries) : Option Entries :=
  changeAt? false (fun _ table =>
    match table.lookup name with
    | none => some (table ++ [(name, .table .header [])])
    | some (.table .path inner) => some (replace table name (.table .header inner))
    | some _ => none) path .header entries

/-- Begin the next item of an array of tables. -/
def addItem? (path : List String) (name : String) (entries : Entries) : Option Entries :=
  changeAt? false (fun _ table =>
    match table.lookup name with
    | none => some (table ++ [(name, .tables [] [])])
    | some (.tables closed last) => some (replace table name (.tables (closed ++ [last]) []))
    | some _ => none) path .header entries

/-- Add a value under a dotted key to the table at the end of a path. -/
def addValueAt? (table path : List String) (name : String) (v : TomlTree) (entries : Entries) :
    Option Entries :=
  changeAt? false (fun _ inner => addValue? path name v inner) table .header entries

mutual
/-- The tree of a draft that nothing is added to any more. -/
def close : Draft → TomlTree
  | .value v => v
  | .table _ entries => .table (closeEntries entries)
  | .tables closed last => .array (closeTables closed ++ [.table (closeEntries last)])

def closeEntries : Entries → List (String × TomlTree)
  | [] => []
  | (name, draft) :: rest => (name, draft.close) :: closeEntries rest

def closeTables : List Entries → List TomlTree
  | [] => []
  | entries :: rest => .table (closeEntries entries) :: closeTables rest
end

/-- The table of an inline table's entries, in order. -/
def inlineTable? (pairs : List (List String × String × TomlTree)) : Option TomlTree :=
  (pairs.foldlM (fun entries (path, name, v) => addValue? path name v entries) []).map fun entries =>
    .table (closeEntries entries)

end Draft

end ComputerHost.TomlTree

/-! # TOML documents

A document as a tree. Entries of a table keep their order, and a name stands in a table once. Floats and
dates keep their spelling: nothing here computes with them.
-/

namespace ComputerHost

inductive TomlTree where
  | string (text : String)
  | integer (i : Int)
  | boolean (b : Bool)
  | float (spelling : String)
  /-- A date, a time of day, or both. -/
  | moment (spelling : String)
  | array (items : List TomlTree)
  | table (entries : List (String × TomlTree))
deriving Repr, Inhabited

end ComputerHost

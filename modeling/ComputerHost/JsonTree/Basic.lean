/-! # JSON documents

A document as a tree. Members of an object keep their order, repeated names included. A number keeps
its spelling: nothing here computes with it.
-/

namespace ComputerHost

inductive JsonTree where
  | null
  | bool (b : Bool)
  | number (spelling : String)
  /-- A string, or a literal that stands for no text because it has half of a surrogate pair. -/
  | string (text : Option String)
  | array (items : List JsonTree)
  | object (members : List (Option String × JsonTree))
deriving Repr, Inhabited

end ComputerHost

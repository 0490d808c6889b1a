import ComputerHost.TomlTree.Draft
import ComputerHost.TomlTree.Number

/-! # Reading TOML

A reader takes something from the front of a text and answers with the rest of it. The document is read
into statements, one a line, which are then put together in order.
-/

namespace ComputerHost.TomlTree

/-! ## White space -/

/-- May a character stand for itself? Tabs may, other control characters may not. -/
def isPlain (c : Char) : Bool := c == '\t' || (32 ≤ c.toNat && c.toNat != 127)

def isBlank (c : Char) : Bool := c == ' ' || c == '\t'

def skipBlank (s : List Char) : List Char := s.dropWhile isBlank

/-- The text after a line end at its front. -/
def newline? : List Char → Option (List Char)
  | '\n' :: rest => some rest
  | '\r' :: '\n' :: rest => some rest
  | _ => none

/-- Without white space, line ends and comments at the front. A comment ends at its first character
that may not stand in it. -/
def skipLines (inComment : Bool) : List Char → List Char
  | [] => []
  | '\n' :: rest => skipLines false rest
  | '\r' :: '\n' :: rest => skipLines false rest
  | c :: rest =>
    if inComment && isPlain c then skipLines true rest
    else if !inComment && isBlank c then skipLines false rest
    else if !inComment && c == '#' then skipLines true rest
    else c :: rest

/-- The text after the line: nothing but a comment may stand before its end. -/
def lineEnd? (s : List Char) : Option (List Char) :=
  let s := match skipBlank s with
    | '#' :: rest => rest.dropWhile isPlain
    | rest => rest
  if s = [] then some [] else newline? s

/-! ## Strings -/

/-- The character that a letter after a backslash stands for. -/
def escaped? : Char → Option Char
  | '"' => some '"'
  | '\\' => some '\\'
  | 'b' => some '\x08'
  | 'f' => some '\x0c'
  | 'n' => some '\n'
  | 'r' => some '\r'
  | 't' => some '\t'
  | _ => none

/-- The character with a number in base sixteen. Halves of surrogate pairs are no characters. -/
def numbered? (digits : List Char) : Option Char := do
  let n ← Text.inBase? 16 digits
  if n.isValidChar then return Char.ofNat n else none

/-- The rest of a string in double quotes. -/
def readBasic : List Char → Option (List Char × List Char)
  | [] => none
  | '"' :: rest => some ([], rest)
  | '\\' :: 'u' :: a :: b :: c :: d :: rest => do
    let x ← numbered? [a, b, c, d]
    let (text, rest) ← readBasic rest
    return (x :: text, rest)
  | '\\' :: 'U' :: a :: b :: c :: d :: e :: f :: g :: h :: rest => do
    let x ← numbered? [a, b, c, d, e, f, g, h]
    let (text, rest) ← readBasic rest
    return (x :: text, rest)
  | '\\' :: e :: rest => do
    let x ← escaped? e
    let (text, rest) ← readBasic rest
    return (x :: text, rest)
  | c :: rest =>
    if isPlain c && c != '\\' then do
      let (text, rest) ← readBasic rest
      return (c :: text, rest)
    else none

/-- The rest of a string in single quotes, which knows no escapes. -/
def readLiteral : List Char → Option (List Char × List Char)
  | [] => none
  | '\'' :: rest => some ([], rest)
  | c :: rest =>
    if isPlain c then do
      let (text, rest) ← readLiteral rest
      return (c :: text, rest)
    else none

/-- The end of a string that may have line ends: up to two more quotes belong to the text. -/
def closeBlock (quote : Char) : List Char → List Char × List Char
  | a :: b :: rest =>
    if a = quote ∧ b = quote then ([a, b], rest)
    else if a = quote then ([a], b :: rest)
    else ([], a :: b :: rest)
  | [a] => if a = quote then ([a], []) else ([], [a])
  | [] => ([], [])

/-- The rest of a string in triple double quotes. A backslash at the end of a line takes away the line
end and the white space that follows; while it does, `skipping` is up. -/
def readBasicBlock (skipping : Bool) : List Char → Option (List Char × List Char)
  | [] => none
  | '"' :: '"' :: '"' :: rest => some (closeBlock '"' rest)
  | '\\' :: 'u' :: a :: b :: c :: d :: rest => do
    let x ← numbered? [a, b, c, d]
    let (text, rest) ← readBasicBlock false rest
    return (x :: text, rest)
  | '\\' :: 'U' :: a :: b :: c :: d :: e :: f :: g :: h :: rest => do
    let x ← numbered? [a, b, c, d, e, f, g, h]
    let (text, rest) ← readBasicBlock false rest
    return (x :: text, rest)
  | '\\' :: e :: rest =>
    match escaped? e with
    | some x => do
      let (text, rest) ← readBasicBlock false rest
      return (x :: text, rest)
    | none =>
      if (newline? (skipBlank (e :: rest))).isSome then readBasicBlock true rest else none
  | '\r' :: '\n' :: rest =>
    if skipping then readBasicBlock true rest
    else do
      let (text, rest) ← readBasicBlock false rest
      return ('\n' :: text, rest)
  | c :: rest =>
    if skipping && (isBlank c || c == '\n') then readBasicBlock true rest
    else if (isPlain c && c != '\\') || c == '\n' then do
      let (text, rest) ← readBasicBlock false rest
      return (c :: text, rest)
    else none

/-- The rest of a string in triple single quotes. -/
def readLiteralBlock : List Char → Option (List Char × List Char)
  | [] => none
  | '\'' :: '\'' :: '\'' :: rest => some (closeBlock '\'' rest)
  | '\r' :: '\n' :: rest => do
    let (text, rest) ← readLiteralBlock rest
    return ('\n' :: text, rest)
  | c :: rest =>
    if isPlain c || c == '\n' then do
      let (text, rest) ← readLiteralBlock rest
      return (c :: text, rest)
    else none

/-- A line end right after the opening quotes does not belong to the text. -/
def skipFirstNewline (s : List Char) : List Char := (newline? s).getD s

/-! ## Keys -/

def isBareKey (c : Char) : Bool := c.isAlphanum || c == '_' || c == '-'

/-- One part of a dotted key. -/
def readName : List Char → Option (List Char × List Char)
  | '"' :: rest => readBasic rest
  | '\'' :: rest => readLiteral rest
  | s =>
    let name := s.takeWhile isBareKey
    if name.isEmpty then none else some (name, s.dropWhile isBareKey)

/-- A dotted key with at most so many parts: the parts before the last one, and the last one. -/
def readKey : Nat → List Char → Option (List String × String × List Char)
  | 0, _ => none
  | parts + 1, s => do
    let (name, s) ← readName (skipBlank s)
    match skipBlank s with
    | '.' :: rest =>
      let (path, last, rest) ← readKey parts rest
      return (String.ofList name :: path, last, rest)
    | rest => return ([], String.ofList name, rest)

/-- How many parts a key may have, and how deep arrays and inline tables may lie in each other. -/
def depthLimit : Nat := 79

/-! ## Values -/

/-- The characters that words are made of. -/
def isWordChar (c : Char) : Bool :=
  c.isAlphanum || c == '+' || c == '-' || c == '_' || c == '.' || c == ':'

/-- A word. A blank between a date and a time stands for the letter T. -/
def readWord (s : List Char) : Option (TomlTree × List Char) := do
  let word := s.takeWhile isWordChar
  let rest := s.dropWhile isWordChar
  match isDate word, rest with
  | true, ' ' :: d :: more =>
    if d.isDigit then
      let time := (d :: more).takeWhile isWordChar
      return (← word? (word ++ 'T' :: time), (d :: more).dropWhile isWordChar)
    else return (← word? word, rest)
  | _, rest => return (← word? word, rest)

def readString (s : Option (List Char × List Char)) : Option (TomlTree × List Char) :=
  s.map fun (text, rest) => (.string (String.ofList text), rest)

mutual
/-- A value in which arrays and inline tables lie at most so deep. -/
def readValue : Nat → Nat → List Char → Option (TomlTree × List Char)
  | 0, _, _ => none
  | fuel + 1, depth, s =>
    match s, depth with
    | '"' :: '"' :: '"' :: rest, _ => readString (readBasicBlock false (skipFirstNewline rest))
    | '"' :: rest, _ => readString (readBasic rest)
    | '\'' :: '\'' :: '\'' :: rest, _ => readString (readLiteralBlock (skipFirstNewline rest))
    | '\'' :: rest, _ => readString (readLiteral rest)
    | '[' :: _, 0 => none
    | '[' :: rest, depth + 1 => do
      let (items, rest) ← readItems fuel depth rest
      return (.array items, rest)
    | '\x7b' :: _, 0 => none
    | '\x7b' :: rest, depth + 1 =>
      match skipBlank rest with
      | '\x7d' :: rest => some (.table [], rest)
      | rest => do
        let (pairs, rest) ← readPairs fuel depth rest
        return (← Draft.inlineTable? pairs, rest)
    | s, _ => readWord s

/-- The items of an array up to its closing bracket. A comma may stand behind the last one. -/
def readItems : Nat → Nat → List Char → Option (List TomlTree × List Char)
  | 0, _, _ => none
  | fuel + 1, depth, s =>
    match skipLines false s with
    | ']' :: rest => some ([], rest)
    | s => do
      let (item, s) ← readValue fuel depth s
      match skipLines false s with
      | ',' :: rest =>
        let (items, rest) ← readItems fuel depth rest
        return (item :: items, rest)
      | ']' :: rest => return ([item], rest)
      | _ => none

/-- The entries of an inline table up to its closing brace. -/
def readPairs : Nat → Nat → List Char → Option (List (List String × String × TomlTree) × List Char)
  | 0, _, _ => none
  | fuel + 1, depth, s => do
    let (path, name, s) ← readKey depthLimit s
    match s with
    | '=' :: rest =>
      let (v, s) ← readValue fuel depth (skipBlank rest)
      match skipBlank s with
      | ',' :: rest =>
        let (pairs, rest) ← readPairs fuel depth rest
        return ((path, name, v) :: pairs, rest)
      | '\x7d' :: rest => return ([(path, name, v)], rest)
      | _ => none
    | _ => none
end

/-! ## Documents -/

/-- What stands on a line. -/
inductive Statement where
  | value (path : List String) (name : String) (v : TomlTree)
  | table (path : List String) (name : String)
  | item (path : List String) (name : String)

/-- A statement up to the end of its line. -/
def readStatement (s : List Char) : Option (Statement × List Char) := do
  match s with
  | '[' :: '[' :: rest =>
    match ← readKey depthLimit rest with
    | (path, name, ']' :: ']' :: rest) => return (.item path name, ← lineEnd? rest)
    | _ => none
  | '[' :: rest =>
    match ← readKey depthLimit rest with
    | (path, name, ']' :: rest) => return (.table path name, ← lineEnd? rest)
    | _ => none
  | s =>
    match ← readKey depthLimit s with
    | (path, name, '=' :: rest) =>
      let (v, rest) ← readValue (2 * rest.length + 2) depthLimit (skipBlank rest)
      return (.value path name v, ← lineEnd? rest)
    | _ => none

/-- The statements of a document, at most so many. -/
def readStatements : Nat → List Char → Option (List Statement)
  | 0, _ => none
  | fuel + 1, s =>
    match skipLines false s with
    | [] => some []
    | s => do
      let (statement, s) ← readStatement s
      return statement :: (← readStatements fuel s)

/-- The document so far, and the path of the table that values go into. -/
structure Assembly where
  entries : Draft.Entries
  current : List String

/-- Put one more statement to a document. -/
def Assembly.add? (a : Assembly) : Statement → Option Assembly
  | .value path name v =>
    (Draft.addValueAt? a.current path name v a.entries).map fun entries => { a with entries }
  | .table path name =>
    (Draft.addTable? path name a.entries).map fun entries => ⟨entries, path ++ [name]⟩
  | .item path name =>
    (Draft.addItem? path name a.entries).map fun entries => ⟨entries, path ++ [name]⟩

/-- The document that a text holds. A byte order mark may stand in front of it. -/
def parse (text : String) : Option TomlTree := do
  let s := match text.toList with
    | '\uFEFF' :: rest => rest
    | s => s
  let statements ← readStatements (s.length + 1) s
  let a ← statements.foldlM Assembly.add? ⟨[], []⟩
  return .table (Draft.closeEntries a.entries)

end ComputerHost.TomlTree

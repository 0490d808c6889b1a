import ComputerHost.ComputerConfig

/-!
# Settings as a document

Settings are kept as the text of a JSON document. Reading that text gives them back, whatever characters
their label has.

Results:
1. `readString_escaped`: string literals.
2. `readMembers_member`, `readMembers_last`: the members of an object.
3. `ofText?_toText`: whole documents.
-/

namespace ComputerHost

namespace JsonTree

/-! ## 1. String literals -/

/-- Is a character written as a number? -/
def isCoded (c : Char) : Bool :=
  decide (c.toNat < 32) && !(['\n', '\r', '\t', '\x08', '\x0c'].contains c)

/-- What the reader makes of an escaped character. -/
def itemOf (c : Char) : Item := if isCoded c then .unit c.toNat else .char c

theorem unit?_digitChar : ∀ n < 32,
    unit? '0' '0' (Nat.digitChar (n / 16)) (Nat.digitChar (n % 16)) = some n := by
  decide

/-- An escaped letter. The letter of a coded character is another matter. -/
theorem scanString_letter {e c : Char} (he : e ≠ 'u') (hc : escaped? e = some c) (s : List Char) :
    scanString ('\\' :: e :: s) = (scanString s).map fun (items, rest) => (.char c :: items, rest) := by
  rw [scanString, hc]
  · cases scanString s <;> rfl
  · intro a b c d rest heq
    exact absurd heq he

theorem scanString_coded {a b : Char} {n : Nat} (hn : unit? '0' '0' a b = some n) (s : List Char) :
    scanString ('\\' :: 'u' :: '0' :: '0' :: a :: b :: s) =
      (scanString s).map fun (items, rest) => (.unit n :: items, rest) := by
  rw [scanString, hn]
  cases scanString s <;> rfl

theorem scanString_plain {c : Char} (hquote : c ≠ '"') (hslash : c ≠ '\\') (hhigh : ¬c.toNat < 32)
    (s : List Char) :
    scanString (c :: s) = (scanString s).map fun (items, rest) => (.char c :: items, rest) := by
  rw [scanString, if_neg (by simp [hhigh, hslash])]
  · cases scanString s <;> rfl
  · exact hquote
  · intro _ _ _ _ _ heq
    exact absurd heq hslash
  · intro _ _ heq
    exact absurd heq hslash

theorem scanString_escape (c : Char) (s : List Char) :
    scanString (escape c ++ s) = (scanString s).map fun (items, rest) => (itemOf c :: items, rest) := by
  unfold escape
  split
  · exact scanString_letter (by decide) rfl s
  · exact scanString_letter (by decide) rfl s
  · exact scanString_letter (by decide) rfl s
  · exact scanString_letter (by decide) rfl s
  · exact scanString_letter (by decide) rfl s
  · exact scanString_letter (by decide) rfl s
  · exact scanString_letter (by decide) rfl s
  · next hquote hslash hn hr ht hb hf =>
    split
    · next hlow =>
      have hitem : itemOf c = .unit c.toNat := by
        simp only [itemOf, isCoded, hlow, List.contains_cons, List.contains_nil, decide_true,
          Bool.true_and, Bool.or_false, Bool.not_eq_true', Bool.or_eq_false_iff, beq_eq_false_iff_ne]
        exact if_pos ⟨hn, hr, ht, hb, hf⟩
      rw [hitem]
      exact scanString_coded (unit?_digitChar c.toNat hlow) s
    · next hhigh =>
      have hitem : itemOf c = .char c := by
        simp [itemOf, isCoded, hhigh]
      rw [hitem]
      exact scanString_plain hquote hslash hhigh s

/-- A code unit below the surrogates stands for a character of its own. -/
theorem textOf?_unit {n : Nat} (hn : n < 32) (items : List Item) :
    textOf? (.unit n :: items) = (textOf? items).map (Char.ofNat n :: ·) := by
  have hhigh : isHighSurrogate n = false := by
    simp [isHighSurrogate]
    omega
  have hlow : isLowSurrogate n = false := by
    simp [isLowSurrogate]
    omega
  cases items with
  | nil => simp [textOf?, hhigh, hlow]
  | cons item rest =>
    cases item with
    | char c => simp [textOf?, hhigh, hlow]
    | unit low => simp [textOf?, hhigh, hlow]

theorem textOf?_items (text : List Char) : textOf? (text.map itemOf) = some text := by
  induction text with
  | nil => rfl
  | cons c rest ih =>
    rw [List.map_cons]
    cases hcoded : isCoded c with
    | true =>
      have hlow : c.toNat < 32 := by simpa using (Bool.and_eq_true_iff.mp hcoded).1
      have hitem : itemOf c = .unit c.toNat := if_pos hcoded
      rw [hitem, textOf?_unit hlow, ih, Option.map_some, Char.ofNat_toNat]
    | false =>
      have hitem : itemOf c = .char c := by simp [itemOf, hcoded]
      rw [hitem, textOf?, ih, Option.map_some]

theorem scanString_escaped (text s : List Char) :
    scanString (text.flatMap escape ++ '"' :: s) = some (text.map itemOf, s) := by
  induction text with
  | nil => rfl
  | cons c rest ih =>
    rw [List.flatMap_cons, List.append_assoc, scanString_escape, ih]
    rfl

/-- A string literal after its opening quote is read as the text that it was made of. -/
theorem readString_escaped (text : String) (s : List Char) :
    readString (text.toList.flatMap escape ++ '"' :: s) = some (some text, s) := by
  unfold readString
  rw [scanString_escaped]
  simp [textOf?_items]

/-! ## 2. Members of an object -/

theorem toList_newLine (level : Nat) :
    (newLine level).toList = '\n' :: List.replicate (2 * level) ' ' := by
  simp [newLine]

theorem skipSpace_spaces (n : Nat) {c : Char} (hc : isSpace c = false) (s : List Char) :
    skipSpace (List.replicate n ' ' ++ c :: s) = c :: s := by
  induction n with
  | zero => simp [skipSpace, hc]
  | succ n ih =>
    rw [List.replicate_succ, List.cons_append]
    exact ih

theorem skipSpace_newLine (level : Nat) {c : Char} (hc : isSpace c = false) (s : List Char) :
    skipSpace ((newLine level).toList ++ c :: s) = c :: s := by
  rw [toList_newLine]
  exact skipSpace_spaces _ hc s

theorem toList_quote (text : String) :
    (quote text).toList = '"' :: (text.toList.flatMap escape ++ ['"']) := by
  simp [quote]

/-- The text of a member up to its value, as the reader of the members finds it. -/
def named (name : String) (s : List Char) : List Char :=
  '"' :: (name.toList.flatMap escape ++ '"' :: ':' :: ' ' :: s)

theorem skipSpace_named (level : Nat) (name : String) (s : List Char) :
    skipSpace ((newLine level).toList ++ named name s) = named name s :=
  skipSpace_newLine level (by decide) _

section
variable {fuel level : Nat} {value : JsonTree} {name : String} {t s rest : List Char}

theorem readMembers_member (ht : skipSpace t = named name s)
    (hvalue : readValue fuel (' ' :: s) = some (value, ',' :: rest)) :
    readMembers (fuel + 1) t =
      (readMembers fuel rest).map fun (members, rest) => ((some name, value) :: members, rest) := by
  have hcolon : skipSpace (':' :: ' ' :: s) = ':' :: ' ' :: s := rfl
  have hcomma : skipSpace (',' :: rest) = ',' :: rest := rfl
  rw [readMembers, ht]
  simp only [named, readString_escaped, Option.bind_eq_bind, Option.bind_some, hcolon, hvalue, hcomma]
  cases readMembers fuel rest <;> rfl

theorem readMembers_last (ht : skipSpace t = named name s)
    (hvalue : readValue fuel (' ' :: s) = some (value, (newLine level).toList ++ '\x7d' :: rest)) :
    readMembers (fuel + 1) t = some ([(some name, value)], rest) := by
  have hcolon : skipSpace (':' :: ' ' :: s) = ':' :: ' ' :: s := rfl
  have hbrace : skipSpace ((newLine level).toList ++ '\x7d' :: rest) = '\x7d' :: rest :=
    skipSpace_newLine level (by decide) rest
  rw [readMembers, ht]
  simp only [named, readString_escaped, Option.bind_eq_bind, Option.bind_some, hcolon, hvalue, hbrace]
  rfl

theorem readValue_object {members : List (Option String × JsonTree)}
    (hs : skipSpace s = named name t) (hmembers : readMembers fuel (named name t) = some (members, rest)) :
    readValue (fuel + 1) ('\x7b' :: s) = some (.object members, rest) := by
  have hbrace : skipSpace ('\x7b' :: s) = '\x7b' :: s := rfl
  rw [readValue]
  simp only [hbrace, hs, named]
  exact congrArg (Option.map _) hmembers

theorem readValue_null (fuel : Nat) (rest : List Char) :
    readValue (fuel + 1) (' ' :: "null".toList ++ rest) = some (.null, rest) := by
  rw [readValue]
  rfl

theorem readValue_bool (fuel : Nat) (b : Bool) (rest : List Char) :
    readValue (fuel + 1) (' ' :: (if b then "true" else "false").toList ++ rest) =
      some (.bool b, rest) := by
  rw [readValue]
  cases b <;> rfl

theorem readValue_quote (fuel : Nat) (text : String) (rest : List Char) :
    readValue (fuel + 1) (' ' :: (quote text).toList ++ rest) = some (.string (some text), rest) := by
  have hquote : skipSpace (' ' :: (quote text).toList ++ rest) =
      '"' :: (text.toList.flatMap escape ++ '"' :: rest) := by
    rw [toList_quote]
    simp [skipSpace, isSpace]
  rw [readValue, hquote]
  simp [readString_escaped]

end

end JsonTree

namespace ComputerConfig

open JsonTree

/-! ## 3. Whole documents -/

def labelTree (c : ComputerConfig) : JsonTree :=
  match c.label with
  | some text => .string (some text)
  | none => .null

theorem readValue_label (fuel : Nat) (c : ComputerConfig) (rest : List Char) :
    readValue (fuel + 1) (' ' :: ((c.labelTree.render 1).toList ++ rest)) =
      some (c.labelTree, rest) := by
  unfold labelTree
  cases c.label with
  | none => exact readValue_null fuel rest
  | some text => exact readValue_quote fuel text rest

/-- The text of the settings, laid out as it is read. -/
theorem toList_toText (c : ComputerConfig) : c.toText.toList =
    '\x7b' :: ((newLine 1).toList ++ named "label" ((c.labelTree.render 1).toList ++ ',' ::
      ((newLine 1).toList ++ named "isColor" ((if c.isColor then "true" else "false").toList ++ ',' ::
        ((newLine 1).toList ++ named "startFullscreen"
          ((if c.startFullscreen then "true" else "false").toList ++
            ((newLine 0).toList ++ ['\x7d']))))))) := by
  have hlabel : c.toTree = .object [(some "label", c.labelTree), (some "isColor", .bool c.isColor),
      (some "startFullscreen", .bool c.startFullscreen)] := rfl
  simp only [toText, print, hlabel, render, renderMembers, String.toList_append, toList_quote, named,
    Option.getD_some]
  simp

theorem ofTree?_toTree (c : ComputerConfig) : ofTree? c.toTree = some c := by
  obtain ⟨label, isColor, startFullscreen⟩ := c
  cases label <;> rfl

/-- The reader of the document needs little fuel: one document with three members. -/
theorem readValue_toText (c : ComputerConfig) (fuel : Nat) :
    readValue (fuel + 5) c.toText.toList = some (c.toTree, []) := by
  rw [toList_toText]
  -- The members from the last one to the first.
  have hlast := readMembers_last (skipSpace_named 1 "startFullscreen" _)
    (readValue_bool fuel c.startFullscreen ((newLine 0).toList ++ ['\x7d']))
  generalize (newLine 1).toList ++ named "startFullscreen" _ = t at hlast ⊢
  have hcolor := readMembers_member (skipSpace_named 1 "isColor" _)
    (readValue_bool (fuel + 1) c.isColor (',' :: t))
  rw [hlast] at hcolor
  generalize (newLine 1).toList ++ named "isColor" _ = t at hcolor ⊢
  have hlabel := readMembers_member (t := named "label" _) rfl
    (readValue_label (fuel + 2) c (',' :: t))
  rw [hcolor] at hlabel
  exact readValue_object (skipSpace_named 1 "label" _) hlabel

/-- Settings are read back from the text that they are kept as. -/
theorem ofText?_toText (c : ComputerConfig) : ofText? c.toText = some c := by
  have hfuel : ∃ fuel, 2 * c.toText.toList.length + 2 = fuel + 5 := by
    refine ⟨2 * c.toText.toList.length - 3, ?_⟩
    have hlength : 2 ≤ c.toText.toList.length := by
      rw [toList_toText, toList_newLine]
      simp
    omega
  obtain ⟨fuel, hfuel⟩ := hfuel
  have hparse : JsonTree.parse c.toText = some c.toTree := by
    unfold JsonTree.parse
    dsimp only
    rw [hfuel, readValue_toText]
    rfl
  rw [ofText?, hparse]
  exact ofTree?_toTree c

end ComputerConfig

end ComputerHost

import ComputerHost.Proofs.Toml.Strings

/-!
# Lines of a document

A line that is printed for an entry with a bare key is read as that entry, if its value is plain: a string,
a natural number that fits, a truth value, or an array without items. The line of a header is read as the
next item of its array. A text that is put together from such lines, with empty ones in between, is read as
their statements.

Results:
1. `word?_toDigits`, `readValue_plain`: plain values.
2. `readKey_bare`, `line_printEntry`, `line_header`: one line.
3. `readStatements_of_lines`, `lines_print`: texts.
-/

namespace ComputerHost.TomlTree

/-! ## 1. Plain values -/

/-- A value that is written on one line, and read back. -/
inductive Plain : TomlTree → Prop
  | string (text : String) : Plain (.string text)
  | integer {n : Nat} : n < Nat.pow 2 63 → Plain (.integer n)
  | boolean (b : Bool) : Plain (.boolean b)
  | nothing : Plain (.array [])

section
variable {n : Nat} {s rest : List Char}

theorem digit_of_mem (hc : c ∈ Nat.toDigits 10 n) : c.isDigit = true :=
  Nat.isDigit_of_mem_toDigits (by decide) (by decide) hc

theorem not_mem_toDigits {c : Char} (hc : c.isDigit = false) : c ∉ Nat.toDigits 10 n := fun hmem =>
  absurd (digit_of_mem hmem) (by simp [hc])

theorem head_toDigits (n : Nat) (hzero : (Nat.toDigits 10 n).head? = some '0') : n = 0 := by
  induction n using Nat.strongRecOn with
  | ind n ih =>
    rw [Nat.toDigits_eq_if (by decide)] at hzero
    split at hzero
    · next hlow =>
      have hdigit : n.digitChar.toNat = '0'.toNat := by
        rw [List.head?_cons, Option.some.injEq] at hzero
        rw [hzero]
      rw [Nat.toNat_digitChar_of_lt_ten hlow] at hdigit
      exact Nat.add_left_cancel hdigit
    · next hhigh =>
      obtain ⟨c, later, hlater⟩ := List.exists_cons_of_ne_nil (Nat.toDigits_ne_nil (b := 10) (n := n / 10))
      have htens := ih (n / 10) (by omega) (by rwa [hlater] at hzero ⊢)
      omega

theorem hexDigit?_of_isDigit {c : Char} (hc : c.isDigit = true) :
    Text.hexDigit? c = some (c.toNat - '0'.toNat) ∧ c.toNat - '0'.toNat < 10 := by
  have hbounds : '0' ≤ c ∧ c ≤ '9' := by
    simp only [Char.isDigit, Bool.and_eq_true, decide_eq_true_eq] at hc
    exact hc
  refine ⟨if_pos hbounds, ?_⟩
  have hhigh : c.toNat ≤ 57 := hbounds.2
  have hzero : '0'.toNat = 48 := rfl
  omega

theorem inBase?_digits (hs : ∀ c ∈ s, c.isDigit = true) (n : Nat) :
    (s.foldlM (fun n c => do
      let d ← Text.hexDigit? c
      if d < 10 then return 10 * n + d else none) n) = some (Nat.ofDigitChars 10 s n) := by
  induction s generalizing n with
  | nil => rfl
  | cons c later ih =>
    obtain ⟨hc, hlater⟩ := List.forall_mem_cons.mp hs
    obtain ⟨hdigit, hlow⟩ := hexDigit?_of_isDigit hc
    rw [List.foldlM_cons, hdigit]
    show ((if c.toNat - '0'.toNat < 10 then _ else _ : Option Nat).bind _) = _
    rw [if_pos hlow]
    exact ih hlater _

theorem ungroup?_digits (hs : ∀ c ∈ s, c.isDigit = true) (hnil : s ≠ []) :
    ungroup? Char.isDigit s = some s := by
  have hfree : Text.splitAt (· == '_') s = [s] := by
    refine Text.splitAt_of_free fun c hc => ?_
    refine beq_false_of_ne ?_
    rintro rfl
    cases hs _ hc
  unfold ungroup?
  rw [hfree]
  simp [hnil, List.all_eq_true.mpr hs]

theorem whole?_toDigits (n : Nat) : whole? (Nat.toDigits 10 n) = some (Nat.toDigits 10 n) := by
  have hzero : ((Nat.toDigits 10 n).head? = some '0' && (Nat.toDigits 10 n).length ≠ 1) = false := by
    by_cases h : (Nat.toDigits 10 n).head? = some '0'
    · rw [head_toDigits n h]
      rfl
    · simp [h]
  unfold whole?
  rw [ungroup?_digits (fun c hc => digit_of_mem hc) Nat.toDigits_ne_nil]
  show (if _ then none else some _) = _
  rw [hzero]
  rfl

/-- A natural number that fits in a signed word is read from its digits. -/
theorem integer?_toDigits (hn : n < Nat.pow 2 63) : integer? (Nat.toDigits 10 n) = some (n : Int) := by
  have hvalue : Text.inBase? 10 (Nat.toDigits 10 n) = some n :=
    (inBase?_digits (fun c hc => digit_of_mem hc) 0).trans (congrArg some Nat.ofDigitChars_ten_toDigits)
  have hsign : sign (Nat.toDigits 10 n) = (false, Nat.toDigits 10 n) := by
    unfold sign
    split
    · next h => exact absurd (by simp [h]) (not_mem_toDigits (n := n) (c := '-') rfl)
    · next h => exact absurd (by simp [h]) (not_mem_toDigits (n := n) (c := '+') rfl)
    · rfl
  unfold integer?
  split
  · next h => exact absurd (by simp [h]) (not_mem_toDigits (n := n) (c := 'x') rfl)
  · next h => exact absurd (by simp [h]) (not_mem_toDigits (n := n) (c := 'o') rfl)
  · next h => exact absurd (by simp [h]) (not_mem_toDigits (n := n) (c := 'b') rfl)
  · rw [hsign]
    dsimp only
    rw [whole?_toDigits]
    show (Text.inBase? 10 _).bind _ = _
    rw [hvalue]
    show (if n < Nat.pow 2 63 then _ else _) = _
    rw [if_pos hn]
    rfl

theorem isDate_toDigits (n : Nat) : isDate (Nat.toDigits 10 n) = false := by
  unfold isDate
  split
  · next h => exact absurd (by simp [h]) (not_mem_toDigits (n := n) (c := '-') rfl)
  · rfl

theorem word?_toDigits (hn : n < Nat.pow 2 63) : word? (Nat.toDigits 10 n) = some (.integer n) := by
  have hne {c : Char} {later : List Char} (hc : c.isDigit = false) :
      Nat.toDigits 10 n ≠ c :: later := fun h => not_mem_toDigits hc (h ▸ List.mem_cons_self)
  have htrue : "true".toList = ['t', 'r', 'u', 'e'] := by decide
  have hfalse : "false".toList = ['f', 'a', 'l', 's', 'e'] := by decide
  unfold word?
  rw [htrue, if_neg (hne rfl), hfalse, if_neg (hne rfl), integer?_toDigits hn]

/-- A word ends where a character stands that is not part of one. -/
theorem readWord_of_word (word : List Char) {v : TomlTree} (hword : ∀ c ∈ word, isWordChar c = true)
    (hdate : isDate word = false) (hv : word? word = some v) (s : List Char) :
    readWord (word ++ '\n' :: s) = some (v, '\n' :: s) := by
  have htake : (word ++ '\n' :: s).takeWhile isWordChar = word := by
    rw [List.takeWhile_append_of_pos hword, List.takeWhile_cons_of_neg (by decide), List.append_nil]
  have hdrop : (word ++ '\n' :: s).dropWhile isWordChar = '\n' :: s := by
    rw [List.dropWhile_append_of_pos hword, List.dropWhile_cons_of_neg (by decide)]
  unfold readWord
  rw [htake, hdrop]
  simp only [hdate, hv]
  rfl

theorem isWordChar_of_isDigit {c : Char} (hc : c.isDigit = true) : isWordChar c = true := by
  simp [isWordChar, Char.isAlphanum, hc]

theorem readValue_word {fuel depth : Nat} {c : Char} (hc : isWordChar c = true) (s : List Char) :
    readValue (fuel + 1) depth (c :: s) = readWord (c :: s) := by
  have hne {d : Char} {t : List Char} (hd : isWordChar d = false) : c :: s ≠ d :: t := by
    rintro ⟨⟩
    rw [hd] at hc
    cases hc
  -- No quote and no bracket is part of a word.
  rw [readValue]
  · exact fun _ => hne rfl
  · exact fun _ => hne rfl
  · exact fun _ => hne rfl
  · exact fun _ => hne rfl
  · exact fun _ heq _ => hne rfl heq
  · exact fun _ _ heq _ => hne rfl heq
  · exact fun _ heq _ => hne rfl heq
  · exact fun _ _ heq _ => hne rfl heq

/-- A plain value is read from what is printed for it, up to the end of the line. -/
theorem readValue_plain {fuel depth : Nat} {v : TomlTree} (hv : Plain v) (s : List Char) :
    readValue (fuel + 2) (depth + 1) (v.inline.toList ++ '\n' :: s) = some (v, '\n' :: s) := by
  cases hv with
  | string text =>
    refine readValue_quote text ?_
    intro c hc
    cases hc
    decide
  | @integer n hn =>
    have hdigits : (TomlTree.integer n).inline.toList = Nat.toDigits 10 n := Nat.toList_repr
    obtain ⟨c, later, hlater⟩ := List.exists_cons_of_ne_nil (Nat.toDigits_ne_nil (b := 10) (n := n))
    have hword (c : Char) (hc : c ∈ Nat.toDigits 10 n) : isWordChar c = true :=
      isWordChar_of_isDigit (digit_of_mem hc)
    have hread := readWord_of_word _ hword (isDate_toDigits n) (word?_toDigits hn) s
    rw [hdigits]
    rw [hlater] at hread hword ⊢
    rw [List.cons_append, readValue_word (hword c List.mem_cons_self)]
    exact hread
  | boolean b =>
    cases b with
    | true =>
      exact (readValue_word rfl _).trans
        (readWord_of_word "true".toList (List.all_eq_true.mp (by decide)) (by decide) (if_pos rfl) s)
    | false =>
      exact (readValue_word rfl _).trans
        (readWord_of_word "false".toList (List.all_eq_true.mp (by decide)) (by decide)
          ((if_neg (by decide)).trans (if_pos rfl)) s)
  | nothing => rfl

end

/-! ## 2. One line -/

/-- A key that is printed without quotes. -/
def isBare (name : String) : Bool := !name.toList.isEmpty && name.toList.all isBareKey

/-- A line that is read as a statement, whatever comes after it. -/
structure Line (line : List Char) (statement : Statement) : Prop where
  begins : ∃ c s, line = c :: s ∧ (isBareKey c = true ∨ c = '[')
  reads : ∀ rest, readStatement (line ++ rest) = some (statement, rest)

section
variable {name : String} {v : TomlTree} {c : Char} {rest : List Char}

theorem printKey_of_isBare (hname : isBare name = true) : printKey name = name := if_pos hname

theorem toList_of_isBare (hname : isBare name = true) :
    ∃ c s, name.toList = c :: s ∧ isBareKey c = true ∧ ∀ d ∈ name.toList, isBareKey d = true := by
  obtain ⟨hne, hall⟩ := Bool.and_eq_true_iff.mp hname
  have hbare := List.all_eq_true.mp hall
  obtain ⟨c, s, hs⟩ := List.exists_cons_of_ne_nil (by simpa using hne : name.toList ≠ [])
  exact ⟨c, s, hs, hbare c (hs ▸ List.mem_cons_self), hbare⟩

/-- A character of a bare key is none of those that mean something else. -/
theorem ne_of_isBareKey (hc : isBareKey c = true) {d : Char} (hd : isBareKey d = false) : c ≠ d := by
  rintro rfl
  rw [hd] at hc
  cases hc

theorem skipBlank_of_isBareKey (hc : isBareKey c = true) (s : List Char) :
    skipBlank (c :: s) = c :: s := by
  have hblank : isBlank c = false := by
    simp [isBlank, ne_of_isBareKey hc (d := ' ') rfl, ne_of_isBareKey hc (d := '\t') rfl]
  unfold skipBlank
  rw [List.dropWhile_cons_of_neg (by simp [hblank])]

/-- A bare key with nothing but blanks after it, and then no dot. -/
theorem readKey_bare {parts : Nat} (hname : isBare name = true)
    (hrest : ∀ c ∈ rest.head?, isBareKey c = false) (hdot : ∀ t, skipBlank rest ≠ '.' :: t) :
    readKey (parts + 1) (name.toList ++ rest) = some ([], name, skipBlank rest) := by
  obtain ⟨c, s, hs, hc, hbare⟩ := toList_of_isBare hname
  have htake : (name.toList ++ rest).takeWhile isBareKey = name.toList := by
    rw [List.takeWhile_append_of_pos hbare]
    cases rest with
    | nil => simp
    | cons d t => rw [List.takeWhile_cons_of_neg (by simp [hrest d rfl]), List.append_nil]
  have hdrop : (name.toList ++ rest).dropWhile isBareKey = rest := by
    rw [List.dropWhile_append_of_pos hbare]
    cases rest with
    | nil => rfl
    | cons d t => rw [List.dropWhile_cons_of_neg (by simp [hrest d rfl])]
  have hread : readName (name.toList ++ rest) = some (name.toList, rest) := by
    unfold readName
    split
    · next heq =>
      rw [hs, List.cons_append, List.cons.injEq] at heq
      exact absurd heq.1 (ne_of_isBareKey hc rfl)
    · next heq =>
      rw [hs, List.cons_append, List.cons.injEq] at heq
      exact absurd heq.1 (ne_of_isBareKey hc rfl)
    · rw [htake, hdrop]
      simp [hs]
  have hskip : skipBlank (name.toList ++ rest) = name.toList ++ rest := by
    rw [hs, List.cons_append]
    exact skipBlank_of_isBareKey hc _
  rw [readKey, hskip, hread, Option.bind_eq_bind, Option.bind_some]
  dsimp only
  split
  · next t heq => exact absurd heq (hdot t)
  · simp

theorem lineEnd?_newline (rest : List Char) : lineEnd? ('\n' :: rest) = some rest := rfl

theorem readStatement_value {s t : List Char} (hopen : s.head? ≠ some '[')
    (hkey : readKey depthLimit s = some ([], name, '=' :: t))
    (hv : readValue (2 * t.length + 2) depthLimit (skipBlank t) = some (v, '\n' :: rest)) :
    readStatement s = some (.value [] name v, rest) := by
  unfold readStatement
  split
  · exact absurd rfl hopen
  · exact absurd rfl hopen
  · rw [hkey]
    simp only [Option.bind_eq_bind, Option.bind_some, hv, lineEnd?_newline]
    rfl

theorem toList_quote (text : String) : ∃ c s, (quote text).toList = c :: s ∧ isBlank c = false := by
  unfold quote
  dsimp only
  split <;>
  · simp only [String.toList_append, List.append_assoc]
    exact ⟨_, _, rfl, rfl⟩

/-- A plain value does not begin with a blank. -/
theorem toList_inline (hv : Plain v) : ∃ c s, v.inline.toList = c :: s ∧ isBlank c = false := by
  cases hv with
  | string text => exact toList_quote text
  | @integer n hn =>
    have hdigits : (TomlTree.integer n).inline.toList = Nat.toDigits 10 n := Nat.toList_repr
    obtain ⟨c, s, hs⟩ := List.exists_cons_of_ne_nil (Nat.toDigits_ne_nil (b := 10) (n := n))
    have hc : c.isDigit = true := digit_of_mem (n := n) (hs ▸ List.mem_cons_self)
    refine ⟨c, s, hdigits.trans hs, ?_⟩
    unfold isBlank
    rw [Bool.or_eq_false_iff, beq_eq_false_iff_ne, beq_eq_false_iff_ne]
    refine ⟨?_, ?_⟩ <;>
    · rintro rfl
      cases hc
  | boolean b => cases b <;> exact ⟨_, _, rfl, rfl⟩
  | nothing => exact ⟨_, _, rfl, rfl⟩

theorem skipBlank_inline (hv : Plain v) (s : List Char) :
    skipBlank (' ' :: (v.inline.toList ++ '\n' :: s)) = v.inline.toList ++ '\n' :: s := by
  obtain ⟨c, t, ht, hc⟩ := toList_inline hv
  unfold skipBlank
  rw [ht, List.dropWhile_cons_of_pos rfl, List.cons_append, List.dropWhile_cons_of_neg (by simp [hc])]

/-- The line of an entry. -/
theorem line_printEntry (hname : isBare name = true) (hv : Plain v) :
    Line (printEntry (name, v)).toList (.value [] name v) := by
  obtain ⟨c, s, hs, hc, -⟩ := toList_of_isBare hname
  have htext (rest : List Char) : (printEntry (name, v)).toList ++ rest =
      name.toList ++ ' ' :: '=' :: ' ' :: (v.inline.toList ++ '\n' :: rest) := by
    unfold printEntry
    rw [printKey_of_isBare hname]
    simp
  refine ⟨?_, fun rest => ?_⟩
  · have hline := htext []
    rw [hs, List.append_nil] at hline
    exact ⟨c, _, hline, .inl hc⟩
  · have hopen : ((printEntry (name, v)).toList ++ rest).head? ≠ some '[' := by
      rw [htext, hs]
      exact fun h => ne_of_isBareKey hc rfl (Option.some.inj h)
    refine readStatement_value hopen ?_ ?_ (t := ' ' :: (v.inline.toList ++ '\n' :: rest))
    · rw [htext]
      exact readKey_bare hname (by rintro c ⟨⟩; rfl) (by rintro t ⟨⟩)
    · rw [skipBlank_inline hv]
      exact readValue_plain hv rest

/-- The line of a header of an array of tables. -/
theorem line_header (hname : isBare name = true) :
    Line ("[[" ++ printKey name ++ "]]\n").toList (.item [] name) := by
  have htext (rest : List Char) : ("[[" ++ printKey name ++ "]]\n").toList ++ rest =
      '[' :: '[' :: (name.toList ++ ']' :: ']' :: '\n' :: rest) := by
    rw [printKey_of_isBare hname]
    simp
  refine ⟨⟨'[', '[' :: (name.toList ++ [']', ']', '\n']), ?_, .inr rfl⟩, fun rest => ?_⟩
  · have hline := htext []
    rwa [List.append_nil] at hline
  · have hkey : readKey depthLimit (name.toList ++ ']' :: ']' :: '\n' :: rest) =
        some ([], name, ']' :: ']' :: '\n' :: rest) :=
      readKey_bare hname (by rintro c ⟨⟩; rfl) (by rintro t ⟨⟩)
    rw [htext]
    show (readKey depthLimit (name.toList ++ ']' :: ']' :: '\n' :: rest)).bind _ = _
    simp only [hkey, Option.bind_some, Option.bind_eq_bind, lineEnd?_newline]
    rfl

end

/-! ## 3. Texts -/

/-- A text that consists of lines with these statements, and of empty ones. -/
inductive Lines : List Char → List Statement → Prop
  | nil : Lines [] []
  | blank {s : List Char} {statements : List Statement} : Lines s statements →
    Lines ('\n' :: s) statements
  | line {line s : List Char} {statement : Statement} {statements : List Statement} :
    Line line statement → Lines s statements → Lines (line ++ s) (statement :: statements)

/-- Plain entries with bare keys, none of them twice. -/
structure Record (entries : List (String × TomlTree)) : Prop where
  bare : ∀ entry ∈ entries, isBare entry.1 = true
  plain : ∀ entry ∈ entries, Plain entry.2
  distinct : (entries.map (·.1)).Nodup

/-- A plain value, or an array of records. -/
inductive Flat : TomlTree → Prop
  | plain {v : TomlTree} : Plain v → Flat v
  | tables {items : List (List (String × TomlTree))} : items ≠ [] →
    (∀ entries ∈ items, Record entries) → Flat (.array (items.map .table))

/-- The statements of plain entries. -/
def valuesOf (entries : List (String × TomlTree)) : List Statement :=
  entries.map fun entry => .value [] entry.1 entry.2

/-- The statements of an array of records. -/
def itemsOf (name : String) (items : List (List (String × TomlTree))) : List Statement :=
  items.flatMap fun entries => .item [] name :: valuesOf entries

/-- The statements of a document: plain entries first. -/
def statementsOf (entries : List (String × TomlTree)) : List Statement :=
  valuesOf (entries.filter fun (_, v) => (tables? v).isNone) ++
    entries.flatMap fun (name, v) => ((tables? v).map (itemsOf name)).getD []

section
variable {s t line : List Char} {statements later : List Statement} {statement : Statement}
  {entries : List (String × TomlTree)} {items : List (List (String × TomlTree))} {name : String}

theorem skipLines_of_begins {c : Char} (hc : isBareKey c = true ∨ c = '[') (s : List Char) :
    skipLines false (c :: s) = c :: s := by
  have hne {d : Char} (hd : isBareKey d = false ∧ d ≠ '[') : c ≠ d := by
    rcases hc with hc | rfl
    · exact ne_of_isBareKey hc hd.1
    · exact Ne.symm hd.2
  have hblank : isBlank c = false := by
    simp [isBlank, hne (d := ' ') ⟨rfl, by decide⟩, hne (d := '\t') ⟨rfl, by decide⟩]
  rw [skipLines]
  · simp [hblank, hne (d := '#') ⟨rfl, by decide⟩]
  · exact hne ⟨rfl, by decide⟩
  · rintro t rfl
    exact absurd rfl (hne (d := '\r') ⟨rfl, by decide⟩)

theorem readStatements_of_lines {fuel : Nat} (h : Lines s statements) (hfuel : s.length < fuel) :
    readStatements fuel s = some statements := by
  induction h generalizing fuel with
  | nil =>
    obtain ⟨fuel, rfl⟩ := Nat.exists_eq_succ_of_ne_zero (Nat.ne_of_gt hfuel)
    rfl
  | @blank s statements hlines ih =>
    obtain ⟨fuel, rfl⟩ := Nat.exists_eq_succ_of_ne_zero (Nat.ne_of_gt (Nat.zero_lt_of_lt hfuel))
    have hskip : skipLines false ('\n' :: s) = skipLines false s := by rw [skipLines]
    rw [← ih (Nat.lt_of_succ_lt hfuel), readStatements, readStatements, hskip]
  | @line line s statement statements hline hlines ih =>
    obtain ⟨fuel, rfl⟩ := Nat.exists_eq_succ_of_ne_zero (Nat.ne_of_gt (Nat.zero_lt_of_lt hfuel))
    obtain ⟨c, t, rfl, hc⟩ := hline.begins
    rw [List.length_append, List.length_cons] at hfuel
    have hlater := ih (by omega : s.length < fuel)
    have hread := hline.reads s
    rw [List.cons_append] at hread ⊢
    rw [readStatements, skipLines_of_begins hc]
    simp only [hread, Option.bind_eq_bind, Option.bind_some, hlater]
    rfl

theorem Lines.append (h : Lines s statements) (h' : Lines t later) :
    Lines (s ++ t) (statements ++ later) := by
  induction h with
  | nil => exact h'
  | blank _ ih => exact .blank ih
  | line hline _ ih =>
    rw [List.append_assoc, List.cons_append]
    exact .line hline ih

/-- Texts one after the other. -/
theorem lines_flatMap {α : Type} {xs : List α} {text : α → List Char} {said : α → List Statement}
    (h : ∀ x ∈ xs, Lines (text x) (said x)) : Lines (xs.flatMap text) (xs.flatMap said) := by
  induction xs with
  | nil => exact .nil
  | cons x rest ih =>
    obtain ⟨hx, hrest⟩ := List.forall_mem_cons.mp h
    rw [List.flatMap_cons, List.flatMap_cons]
    exact hx.append (ih hrest)

theorem lines_printEntries (hbare : ∀ entry ∈ entries, isBare entry.1 = true)
    (hplain : ∀ entry ∈ entries, Plain entry.2) :
    Lines (printEntries entries).toList (valuesOf entries) := by
  have hsaid : valuesOf entries = entries.flatMap fun entry => [.value [] entry.1 entry.2] :=
    List.map_eq_flatMap
  rw [printEntries, String.toList_join, List.flatMap_map, hsaid]
  refine lines_flatMap fun entry hentry => ?_
  rw [← List.append_nil (printEntry entry).toList]
  exact .line (line_printEntry (hbare entry hentry) (hplain entry hentry)) .nil

theorem lines_printTables (hname : isBare name = true) (hitems : ∀ entries ∈ items, Record entries) :
    Lines (printTables name items).toList (itemsOf name items) := by
  rw [printTables, String.toList_join, List.flatMap_map]
  refine lines_flatMap fun entries hentries => ?_
  have htext : ("\n[[" ++ printKey name ++ "]]\n" ++ printEntries entries).toList =
      '\n' :: (("[[" ++ printKey name ++ "]]\n").toList ++ (printEntries entries).toList) := by
    simp
  rw [htext]
  exact .blank (.line (line_header hname)
    (lines_printEntries (hitems entries hentries).bare (hitems entries hentries).plain))

theorem tables?_plain {v : TomlTree} (hv : Plain v) : tables? v = none := by
  cases hv <;> rfl

theorem tables?_tables (hnil : items ≠ []) : tables? (.array (items.map .table)) = some items := by
  unfold tables?
  split
  · next heq => exact absurd heq (by simpa using hnil)
  · next heq =>
    cases heq
    rw [List.mapM_map]
    exact (List.mapM_pure (f := id)).trans (by simp)
  · next heq => exact absurd rfl (heq _)

/-- A document is printed as its statements. -/
theorem lines_print (hbare : ∀ entry ∈ entries, isBare entry.1 = true)
    (hflat : ∀ entry ∈ entries, Flat entry.2) : Lines (print entries).toList (statementsOf entries) := by
  rw [print, String.toList_append, String.toList_join, List.flatMap_map]
  refine .append (lines_printEntries ?_ ?_) (lines_flatMap fun entry hentry => ?_)
  · exact fun entry hentry => hbare entry (List.mem_filter.mp hentry).1
  · rintro ⟨name, v⟩ hentry
    obtain ⟨hmem, hnone⟩ := List.mem_filter.mp hentry
    cases hflat _ hmem with
    | plain hv => exact hv
    | tables hnil =>
      dsimp only at hnone
      rw [tables?_tables hnil] at hnone
      cases hnone
  · obtain ⟨name, v⟩ := entry
    dsimp only
    cases hflat _ hentry with
    | plain hv =>
      rw [tables?_plain (v := v) hv]
      exact .nil
    | tables hnil hitems =>
      rw [tables?_tables hnil]
      exact lines_printTables (hbare _ hentry) hitems

end

end ComputerHost.TomlTree

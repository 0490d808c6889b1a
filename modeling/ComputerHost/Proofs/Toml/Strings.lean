import ComputerHost.TomlTree.Printer
import ComputerHost.TomlTree.Reader

/-!
# Quoted strings

A string in its quotes is read as the text that it was made of, whatever characters the text has and
whichever quotes it was put into.

Results:
1. `le_longestRun`: runs of quotes.
2. `Unescapes.escape`, `readBasic_escapeAll`, `readLiteral_text`: strings on one line.
3. `readBasicBlock_escapeAll`, `readLiteralBlock_text`: strings on several lines.
4. `readValue_quote`: strings in the quotes that the printer puts them into.
-/

namespace ComputerHost.TomlTree

/-! ## 1. Runs of quotes -/

/-- The longest run so far and the one that lasts, with one more character. -/
def countRun (c : Char) (counted : Nat × Nat) (d : Char) : Nat × Nat :=
  let run := if d = c then counted.2 + 1 else 0
  (max counted.1 run, run)

section
variable {c : Char} {s : List Char} {n : Nat}

theorem longestRun_eq (c : Char) (s : List Char) :
    longestRun c s = (s.foldl (countRun c) (0, 0)).1 := rfl

theorem le_foldl_countRun (c : Char) (s : List Char) (counted : Nat × Nat) :
    counted.1 ≤ (s.foldl (countRun c) counted).1 := by
  induction s generalizing counted with
  | nil => exact Nat.le_refl _
  | cons d rest ih =>
    have hkept : counted.1 ≤ (countRun c counted d).1 := Nat.le_max_left ..
    exact Nat.le_trans hkept (ih _)

theorem foldl_countRun_replicate (c : Char) (n : Nat) (counted : Nat × Nat) :
    ((List.replicate n c).foldl (countRun c) counted).2 = counted.2 + n ∧
      (0 < n → counted.2 + n ≤ ((List.replicate n c).foldl (countRun c) counted).1) := by
  induction n generalizing counted with
  | zero => exact ⟨rfl, fun h => absurd h (Nat.lt_irrefl 0)⟩
  | succ n ih =>
    have hnext : countRun c counted c = (max counted.1 (counted.2 + 1), counted.2 + 1) := by
      simp [countRun]
    obtain ⟨hrun, hlongest⟩ := ih (countRun c counted c)
    rw [List.replicate_succ, List.foldl_cons]
    rw [hnext] at hrun hlongest ⊢
    refine ⟨by rw [hrun]; omega, fun _ => ?_⟩
    cases n with
    | zero => exact Nat.le_max_right ..
    | succ n =>
      have hlast := hlongest (Nat.succ_pos n)
      omega

/-- A run is no longer than the longest one. -/
theorem le_longestRun (h : List.replicate n c <:+: s) : n ≤ longestRun c s := by
  obtain ⟨before, after, rfl⟩ := h
  cases n with
  | zero => exact Nat.zero_le _
  | succ n =>
    rw [longestRun_eq, List.foldl_append, List.foldl_append]
    have hrun := (foldl_countRun_replicate c (n + 1) (before.foldl (countRun c) (0, 0))).2 n.succ_pos
    have hkept := le_foldl_countRun c after
      ((List.replicate (n + 1) c).foldl (countRun c) (before.foldl (countRun c) (0, 0)))
    omega

theorem not_mem_of_longestRun (h : longestRun c s = 0) : c ∉ s := by
  intro hmem
  obtain ⟨before, after, rfl⟩ := List.append_of_mem hmem
  have hinfix : List.replicate 1 c <:+: before ++ c :: after :=
    ⟨before, after, by rw [List.append_assoc]; rfl⟩
  have hle := le_longestRun hinfix
  omega

theorem not_infix_of_longestRun (h : longestRun c s ≤ 2) : ¬[c, c, c] <:+: s := by
  intro hinfix
  have hle := le_longestRun (n := 3) hinfix
  omega

end

/-! ## 2. Strings on one line -/

/-- One more character in front of what has been read. -/
def prepend (c : Char) (read : Option (List Char × List Char)) : Option (List Char × List Char) :=
  read.map fun (text, rest) => (c :: text, rest)

/-- A reader that understands what `escape` writes. -/
structure Unescapes (read : List Char → Option (List Char × List Char)) : Prop where
  letter : ∀ {e x : Char} (s : List Char), escaped? e = some x →
    read ('\\' :: e :: s) = prepend x (read s)
  coded : ∀ {a b c d x : Char} (s : List Char), numbered? [a, b, c, d] = some x →
    read ('\\' :: 'u' :: a :: b :: c :: d :: s) = prepend x (read s)
  plain : ∀ {c : Char} (s : List Char), isPlain c = true → c ≠ '\\' → c ≠ '"' →
    read (c :: s) = prepend c (read s)

theorem numbered?_digits : ∀ n < 128, numbered? ['0', '0', (Nat.digitChar (n / 16)).toUpper,
    (Nat.digitChar (n % 16)).toUpper] = some (Char.ofNat n) := by
  decide +kernel

section
variable {read : List Char → Option (List Char × List Char)} {c e x : Char} {s rest : List Char}

theorem isPlain_of_not_isControl (h : isControl c = false) (hline : c ≠ '\n') : isPlain c = true := by
  unfold isControl at h
  unfold isPlain
  by_cases htab : c = '\t'
  · simp [htab]
  · simp [htab, hline] at h ⊢
    omega

theorem Unescapes.escape (hread : Unescapes read) (hquote : c ≠ '"') (hline : c ≠ '\n')
    (s : List Char) : read (TomlTree.escape c ++ s) = prepend c (read s) := by
  unfold TomlTree.escape
  split
  · exact hread.letter s rfl
  · exact hread.letter s rfl
  · exact hread.letter s rfl
  · exact hread.letter s rfl
  · exact hread.letter s rfl
  · next hslash _ _ _ _ =>
    split
    · next hcontrol =>
      have hlow : c.toNat < 128 := by
        simp [isControl] at hcontrol
        omega
      have hdigits := numbered?_digits c.toNat hlow
      rw [Char.ofNat_toNat] at hdigits
      exact hread.coded s hdigits
    · next hcontrol =>
      exact hread.plain s (isPlain_of_not_isControl (by simpa using hcontrol) hline) hslash hquote

theorem ne_of_escaped? (h : escaped? e = some x) : e ≠ 'u' ∧ e ≠ 'U' := by
  refine ⟨?_, ?_⟩ <;>
  · rintro rfl
    cases h

theorem unescapes_readBasic : Unescapes readBasic where
  letter := by
    intro e x s he
    obtain ⟨hu, hU⟩ := ne_of_escaped? he
    rw [readBasic, he]
    · cases readBasic s <;> rfl
    · intro a b c d rest heq
      exact absurd heq hu
    · intro a b c d e f g h rest heq
      exact absurd heq hU
  coded := by
    intro a b c d x s hx
    rw [readBasic, hx]
    cases readBasic s <;> rfl
  plain := by
    intro c s hplain hslash hquote
    rw [readBasic, if_pos (by simp [hplain, hslash])]
    · cases readBasic s <;> rfl
    · exact hquote
    · intro _ _ _ _ _ heq
      exact absurd heq hslash
    · intro _ _ _ _ _ _ _ _ _ heq
      exact absurd heq hslash
    · intro _ _ heq
      exact absurd heq hslash

/-- A text between double quotes on one line. -/
theorem readBasic_escapeAll (run : Nat) (s rest : List Char) :
    readBasic (escapeAll false run s ++ '"' :: rest) = some (s, rest) := by
  induction s generalizing run with
  | nil => rfl
  | cons c later ih =>
    by_cases hquote : c = '"'
    · subst hquote
      have hone : escapeAll false run ('"' :: later) = '\\' :: '"' :: escapeAll false 0 later := rfl
      rw [hone, List.cons_append, List.cons_append, unescapes_readBasic.letter _ rfl, ih]
      rfl
    · by_cases hline : c = '\n'
      · subst hline
        have hone : escapeAll false run ('\n' :: later) = '\\' :: 'n' :: escapeAll false 0 later := rfl
        rw [hone, List.cons_append, List.cons_append, unescapes_readBasic.letter _ rfl, ih]
        rfl
      · rw [escapeAll, List.append_assoc, unescapes_readBasic.escape hquote hline, ih]
        · rfl
        · exact hquote
        · exact hline

/-- A text between single quotes on one line. -/
theorem readLiteral_text (hplain : ∀ c ∈ s, isPlain c = true) (hquote : '\'' ∉ s) (rest : List Char) :
    readLiteral (s ++ '\'' :: rest) = some (s, rest) := by
  induction s with
  | nil => rfl
  | cons c later ih =>
    obtain ⟨hc, hlater⟩ := List.forall_mem_cons.mp hplain
    obtain ⟨hne, hfree⟩ := not_or.mp (mt List.mem_cons.mpr hquote)
    rw [List.cons_append, readLiteral, if_pos hc, ih hlater hfree]
    · rfl
    · exact Ne.symm hne

end

/-! ## 3. Strings on several lines -/

/-- Nothing that would belong to a string closed in front of it. -/
def Clear (rest : List Char) : Prop := ∀ c ∈ rest.head?, c ≠ '"' ∧ c ≠ '\''

/-- A reader of strings that three of these quotes close. -/
structure Blocks (quote : Char) (read : List Char → Option (List Char × List Char)) : Prop where
  close : ∀ s, read (quote :: quote :: quote :: s) = some (closeBlock quote s)
  quote : ∀ s, ¬[quote, quote] <+: s → read (quote :: s) = prepend quote (read s)

section
variable {read : List Char → Option (List Char × List Char)} {c q : Char} {s rest : List Char}

theorem closeBlock_of_ne (h : ∀ c ∈ rest.head?, c ≠ q) :
    closeBlock q rest = ([], rest) ∧ closeBlock q (q :: rest) = ([q], rest) ∧
      closeBlock q (q :: q :: rest) = ([q, q], rest) := by
  cases rest with
  | nil => simp [closeBlock]
  | cons c later =>
    have hne : c ≠ q := h c rfl
    cases later <;> simp [closeBlock, hne]

/-- What is left of a text when its last line ends in one quote or two. -/
theorem Blocks.quotes (hread : Blocks q read) (h : ∀ c ∈ rest.head?, c ≠ q) :
    read (q :: q :: q :: rest) = some ([], rest) ∧
      read (q :: q :: q :: q :: rest) = some ([q], rest) ∧
      read (q :: q :: q :: q :: q :: rest) = some ([q, q], rest) := by
  obtain ⟨hnone, hone, htwo⟩ := closeBlock_of_ne h
  refine ⟨?_, ?_, ?_⟩
  · rw [hread.close, hnone]
  · rw [hread.close, hone]
  · rw [hread.close, htwo]

/-- A character that stands for itself, be it a line end or a quote before which there is no closing. -/
theorem readBasicBlock_char (hplain : isPlain c = true ∨ c = '\n') (hslash : c ≠ '\\')
    (hquote : c = '"' → ¬['"', '"'] <+: s) :
    readBasicBlock false (c :: s) = prepend c (readBasicBlock false s) := by
  have hkept : ((isPlain c && c != '\\') || c == '\n') = true := by
    rcases hplain with hplain | rfl
    · simp [hplain, hslash]
    · rfl
  rw [readBasicBlock, if_neg (by simp), if_pos hkept]
  · cases readBasicBlock false s <;> rfl
  · rintro t rfl rfl
    exact hquote rfl ⟨t, rfl⟩
  · intro _ _ _ _ _ heq
    exact absurd heq hslash
  · intro _ _ _ _ _ _ _ _ _ heq
    exact absurd heq hslash
  · intro _ _ heq
    exact absurd heq hslash
  · rintro t rfl
    rcases hplain with hplain | hplain <;> cases hplain

theorem unescapes_readBasicBlock : Unescapes (readBasicBlock false) where
  letter := by
    intro e x s he
    obtain ⟨hu, hU⟩ := ne_of_escaped? he
    rw [readBasicBlock]
    · simp only [he]
      cases readBasicBlock false s <;> rfl
    · intro a b c d rest heq
      exact absurd heq hu
    · intro a b c d e f g h rest heq
      exact absurd heq hU
  coded := by
    intro a b c d x s hx
    rw [readBasicBlock, hx]
    cases readBasicBlock false s <;> rfl
  plain s hplain hslash hquote := readBasicBlock_char (.inl hplain) hslash fun h => absurd h hquote

theorem blocks_readBasicBlock : Blocks '"' (readBasicBlock false) where
  close s := by rw [readBasicBlock]
  quote s hs := readBasicBlock_char (.inl rfl) (by decide) fun _ => hs

theorem readLiteralBlock_char (hplain : isPlain c = true ∨ c = '\n')
    (hquote : c = '\'' → ¬['\'', '\''] <+: s) :
    readLiteralBlock (c :: s) = prepend c (readLiteralBlock s) := by
  rw [readLiteralBlock, if_pos (by simpa using hplain)]
  · cases readLiteralBlock s <;> rfl
  · rintro t rfl rfl
    exact hquote rfl ⟨t, rfl⟩
  · rintro t rfl
    rcases hplain with hplain | hplain <;> cases hplain

theorem blocks_readLiteralBlock : Blocks '\'' readLiteralBlock where
  close s := by rw [readLiteralBlock]
  quote s hs := readLiteralBlock_char (.inl rfl) fun _ => hs

/-- What a text between double quotes starts with. -/
structure Opens (c : Char) (s : List Char) : Prop where
  head : ∃ d t, s = d :: t ∧ d ≠ '\r' ∧ (d = '\n' → c = '\n') ∧ (d = '"' → c = '"')

theorem opens_escape (c : Char) (rest : List Char) : Opens c (TomlTree.escape c ++ rest) := by
  unfold TomlTree.escape
  split
  · exact ⟨_, _, rfl, by decide, by decide, by decide⟩
  · exact ⟨_, _, rfl, by decide, by decide, by decide⟩
  · exact ⟨_, _, rfl, by decide, by decide, by decide⟩
  · exact ⟨_, _, rfl, by decide, by decide, by decide⟩
  · exact ⟨_, _, rfl, by decide, by decide, by decide⟩
  · next hreturn =>
    split
    · exact ⟨_, _, rfl, by decide, fun h => absurd h (by decide), fun h => absurd h (by decide)⟩
    · exact ⟨_, _, rfl, hreturn, id, id⟩

theorem opens_escapeAll (block : Bool) (run : Nat) (c : Char) (later : List Char) :
    Opens c (escapeAll block run (c :: later)) := by
  unfold escapeAll
  split
  · next heq => cases heq
  · next heq =>
    cases heq
    split
    · exact ⟨_, _, rfl, by decide, by decide, fun _ => rfl⟩
    · exact ⟨_, _, rfl, by decide, by decide, fun _ => rfl⟩
  · next heq =>
    cases heq
    split
    · exact ⟨_, _, rfl, by decide, fun _ => rfl, by decide⟩
    · exact ⟨_, _, rfl, by decide, fun _ => rfl, by decide⟩
  · next heq =>
    cases heq
    exact opens_escape _ _

/-- After two quotes in a row the next one is escaped. -/
theorem escapeAll_quote (block : Bool) (run : Nat) (later : List Char) :
    escapeAll block run ('"' :: later) =
      if block && run < 2 then '"' :: escapeAll block (run + 1) later
      else '\\' :: '"' :: escapeAll block 0 later := by
  rw [escapeAll]

/-- Two quotes in a row, after a first one, are the end of the text. -/
theorem not_prefix_escapeAll {run : Nat} (hrun : run < 2) (hnil : s ≠ []) (hone : run = 0 → s ≠ ['"'])
    (tail : List Char) : ¬['"', '"'] <+: escapeAll true (run + 1) s ++ tail := by
  obtain ⟨c, later, rfl⟩ := List.exists_cons_of_ne_nil hnil
  rintro ⟨t, ht⟩
  by_cases hc : c = '"'
  · subst hc
    rw [escapeAll_quote] at ht
    split at ht
    · next hlow =>
      -- There was one quote before, so this is the second and a third one is escaped.
      obtain rfl : run = 0 := by simp at hlow; omega
      rw [List.cons_append] at ht
      obtain ⟨d, later, rfl⟩ := List.exists_cons_of_ne_nil fun hnil => hone rfl (hnil ▸ rfl)
      by_cases hd : d = '"'
      · subst hd
        rw [escapeAll_quote] at ht
        simp at ht
      · obtain ⟨e, t', hopen, -, -, hquote⟩ := (opens_escapeAll true (0 + 1 + 1) d later).head
        rw [hopen] at ht
        exact hd (hquote (by simp at ht; exact ht.1.symm))
    · simp at ht
  · obtain ⟨e, t', hopen, -, -, hquote⟩ := (opens_escapeAll true (run + 1) c later).head
    rw [hopen] at ht
    exact hc (hquote (by simp at ht; exact ht.1.symm))

/-- A text between double quotes on several lines. -/
theorem readBasicBlock_escapeAll (hrest : ∀ c ∈ rest.head?, c ≠ '"') (run : Nat) (s : List Char) :
    readBasicBlock false (escapeAll true run s ++ '"' :: '"' :: '"' :: rest) = some (s, rest) := by
  obtain ⟨hnone, hone, htwo⟩ := blocks_readBasicBlock.quotes hrest
  induction s generalizing run with
  | nil => exact hnone
  | cons c later ih =>
    by_cases hquote : c = '"'
    · subst hquote
      rw [escapeAll_quote]
      split
      · next hlow =>
        have hrun : run < 2 := by simpa using hlow
        by_cases hnil : later = []
        · subst hnil
          exact hone
        · by_cases hlast : run = 0 ∧ later = ['"']
          · obtain ⟨rfl, rfl⟩ := hlast
            exact htwo
          · rw [List.cons_append, blocks_readBasicBlock.quote _
              (not_prefix_escapeAll hrun hnil (fun h h' => hlast ⟨h, h'⟩) _), ih]
            rfl
      · rw [List.cons_append, List.cons_append, unescapes_readBasicBlock.letter _ rfl, ih]
        rfl
    · by_cases hline : c = '\n'
      · subst hline
        have hline : escapeAll true run ('\n' :: later) = '\n' :: escapeAll true 0 later := rfl
        rw [hline, List.cons_append, readBasicBlock_char (.inr rfl) (by decide)
          fun h => absurd h (by decide), ih]
        rfl
      · rw [escapeAll, List.append_assoc, unescapes_readBasicBlock.escape hquote hline, ih]
        · rfl
        · exact hquote
        · exact hline

/-- A text between single quotes on several lines, with no three of them in a row. -/
theorem readLiteralBlock_text (hplain : ∀ c ∈ s, isPlain c = true ∨ c = '\n')
    (hquotes : ¬['\'', '\'', '\''] <:+: s) (hrest : ∀ c ∈ rest.head?, c ≠ '\'') :
    readLiteralBlock (s ++ '\'' :: '\'' :: '\'' :: rest) = some (s, rest) := by
  obtain ⟨hnone, hone, htwo⟩ := blocks_readLiteralBlock.quotes hrest
  induction s with
  | nil => exact hnone
  | cons c later ih =>
    obtain ⟨hc, hlater⟩ := List.forall_mem_cons.mp hplain
    have hinner := ih hlater fun h => hquotes (h.trans (List.suffix_cons ..).isInfix)
    by_cases hend : c = '\'' ∧ (later = [] ∨ later = ['\''])
    · obtain ⟨rfl, rfl | rfl⟩ := hend
      · exact hone
      · exact htwo
    · have hopen : c = '\'' → ¬['\'', '\''] <+: later ++ '\'' :: '\'' :: '\'' :: rest := by
        rintro rfl ⟨t, ht⟩
        match later with
        | [] => exact hend ⟨rfl, .inl rfl⟩
        | [d] =>
          obtain rfl : '\'' = d := by simp at ht; exact ht.1
          exact hend ⟨rfl, .inr rfl⟩
        | d :: e :: more =>
          obtain ⟨rfl, rfl⟩ : '\'' = d ∧ '\'' = e := by simp at ht; exact ⟨ht.1, ht.2.1⟩
          exact hquotes ⟨[], more, rfl⟩
      rw [List.cons_append, readLiteralBlock_char hc hopen, hinner]
      rfl

end

/-! ## 4. Strings as they are printed -/

section
variable {fuel depth : Nat} {rest : List Char}

theorem readValue_basic {s : List Char} (hs : ¬['"', '"'] <+: s) :
    readValue (fuel + 1) depth ('"' :: s) = readString (readBasic s) := by
  rw [readValue]
  rintro t rfl
  exact hs ⟨t, rfl⟩

theorem readValue_literal {s : List Char} (hs : ¬['\'', '\''] <+: s) :
    readValue (fuel + 1) depth ('\'' :: s) = readString (readLiteral s) := by
  rw [readValue]
  rintro t rfl
  exact hs ⟨t, rfl⟩

theorem readValue_basicBlock (s : List Char) :
    readValue (fuel + 1) depth ('"' :: '"' :: '"' :: s) =
      readString (readBasicBlock false (skipFirstNewline s)) := by
  rw [readValue]

theorem readValue_literalBlock (s : List Char) :
    readValue (fuel + 1) depth ('\'' :: '\'' :: '\'' :: s) =
      readString (readLiteralBlock (skipFirstNewline s)) := by
  rw [readValue]

theorem isPlain_of_quotable {s : List Char} (hcontrol : s.any isControl = false) :
    ∀ c ∈ s, isPlain c = true ∨ c = '\n' := by
  intro c hc
  by_cases hline : c = '\n'
  · exact .inr hline
  · exact .inl (isPlain_of_not_isControl (by simpa using List.any_eq_false.mp hcontrol c hc) hline)

/-- What is put into single quotes on one line. -/
theorem quoting_literal {s : List Char} (h : quoting s = .literal) :
    (∀ c ∈ s, isPlain c = true) ∧ '\'' ∉ s ∧ s ≠ [] := by
  have hnil : s ≠ [] := by
    rintro rfl
    cases h
  unfold quoting at h
  dsimp only at h
  split at h
  · cases h
  · split at h
    · next hkind =>
      simp only [Bool.and_eq_true, Bool.not_eq_true', beq_iff_eq] at hkind
      obtain ⟨⟨hcontrol, hline⟩, hsingles⟩ := hkind
      refine ⟨fun c hc => (isPlain_of_quotable hcontrol c hc).resolve_right ?_,
        not_mem_of_longestRun hsingles, hnil⟩
      rintro rfl
      simp [hc] at hline
    · split at h
      · cases h
      · split at h
        · cases h
        · split at h <;> cases h

/-- What is put into single quotes on several lines. -/
theorem quoting_literalBlock {s : List Char} (h : quoting s = .literalBlock) :
    (∀ c ∈ s, isPlain c = true ∨ c = '\n') ∧ ¬['\'', '\'', '\''] <:+: s := by
  unfold quoting at h
  dsimp only at h
  split at h
  · cases h
  · split at h
    · cases h
    · split at h
      · cases h
      · split at h
        · next hkind =>
          simp only [Bool.and_eq_true, Bool.not_eq_true', decide_eq_true_eq] at hkind
          exact ⟨isPlain_of_quotable hkind.1, not_infix_of_longestRun hkind.2⟩
        · split at h <;> cases h

/-- The line end that a text with line ends begins after. -/
theorem skipFirstNewline_first {s body : List Char} (hbody : '\n' ∉ s → newline? body = none) :
    skipFirstNewline ((if s.contains '\n' then "\n" else "").toList ++ body) = body := by
  split
  · rfl
  · next hline =>
    rw [String.toList_empty, List.nil_append, skipFirstNewline, hbody (by simpa using hline)]
    rfl

theorem newline?_of_ne {c : Char} (hline : c ≠ '\n') (hreturn : c ≠ '\r') (s : List Char) :
    newline? (c :: s) = none := by
  unfold newline?
  split
  · next heq =>
    cases heq
    exact absurd rfl hline
  · next heq =>
    cases heq
    exact absurd rfl hreturn
  · rfl

/-- A text on several lines that begins after a line end, if it has one. -/
theorem newline?_escapeAll {s : List Char} (hline : '\n' ∉ s) :
    newline? (escapeAll true 0 s ++ '"' :: '"' :: '"' :: rest) = none := by
  cases s with
  | nil => rfl
  | cons c later =>
    obtain ⟨d, t, hopen, hreturn, hd, -⟩ := (opens_escapeAll true 0 c later).head
    rw [hopen]
    refine newline?_of_ne (fun h => hline ?_) hreturn _
    rw [hd h]
    exact List.mem_cons_self

theorem newline?_text {s : List Char} (hplain : ∀ c ∈ s, isPlain c = true ∨ c = '\n')
    (hline : '\n' ∉ s) : newline? (s ++ '\'' :: '\'' :: '\'' :: rest) = none := by
  cases s with
  | nil => rfl
  | cons c later =>
    refine newline?_of_ne (fun h => hline (h ▸ List.mem_cons_self)) ?_ _
    rintro rfl
    rcases hplain _ List.mem_cons_self with h | h <;> cases h

/-- A string in its quotes is read as its text. -/
theorem readValue_quote (text : String) (hrest : Clear rest) :
    readValue (fuel + 1) depth ((quote text).toList ++ rest) = some (.string text, rest) := by
  have hread : readString (some (text.toList, rest)) = some (.string text, rest) := by
    simp [readString]
  unfold quote
  dsimp only
  split
  · -- Nothing but an empty text begins with a quote, and it is followed by none.
    have hopen : ¬['"', '"'] <+: escapeAll false 0 text.toList ++ '"' :: rest := by
      rintro ⟨t, ht⟩
      cases htext : text.toList with
      | nil =>
        rw [htext] at ht
        obtain rfl : '"' :: t = rest := by simpa [escapeAll] using ht
        exact (hrest '"' rfl).1 rfl
      | cons c later =>
        obtain ⟨d, t', hbody, -, -, hquote⟩ := (opens_escapeAll false 0 c later).head
        rw [htext, hbody] at ht
        obtain rfl : '"' = d := by simp at ht; exact ht.1
        obtain rfl := hquote rfl
        rw [escapeAll_quote] at hbody
        cases hbody
    have htext : ("\"" ++ String.ofList (escapeAll false 0 text.toList) ++ "\"").toList ++ rest =
        '"' :: (escapeAll false 0 text.toList ++ '"' :: rest) := by simp
    rw [htext, readValue_basic hopen, readBasic_escapeAll, hread]
  · next hkind =>
    obtain ⟨hplain, hfree, hnil⟩ := quoting_literal hkind
    have hopen : ¬['\'', '\''] <+: text.toList ++ '\'' :: rest := by
      obtain ⟨c, later, hlater⟩ := List.exists_cons_of_ne_nil hnil
      rintro ⟨t, ht⟩
      rw [hlater] at ht hfree
      obtain rfl : '\'' = c := by simp at ht; exact ht.1
      exact hfree List.mem_cons_self
    have htext : ("'" ++ text ++ "'").toList ++ rest = '\'' :: (text.toList ++ '\'' :: rest) := by simp
    rw [htext, readValue_literal hopen, readLiteral_text hplain hfree, hread]
  · have htext (first : String) : ("\"\"\"" ++ first ++
        String.ofList (escapeAll true 0 text.toList) ++ "\"\"\"").toList ++ rest =
        '"' :: '"' :: '"' :: (first.toList ++
          (escapeAll true 0 text.toList ++ '"' :: '"' :: '"' :: rest)) := by simp
    rw [htext, readValue_basicBlock, skipFirstNewline_first newline?_escapeAll,
      readBasicBlock_escapeAll fun c hc => (hrest c hc).1, hread]
  · next hkind =>
    obtain ⟨hplain, hquotes⟩ := quoting_literalBlock hkind
    have htext (first : String) : ("'''" ++ first ++ text ++ "'''").toList ++ rest =
        '\'' :: '\'' :: '\'' :: (first.toList ++
          (text.toList ++ '\'' :: '\'' :: '\'' :: rest)) := by simp
    rw [htext, readValue_literalBlock, skipFirstNewline_first (newline?_text hplain),
      readLiteralBlock_text hplain hquotes fun c hc => (hrest c hc).2, hread]

end

end ComputerHost.TomlTree

import ComputerHost.Script.Program

/-!
# Programs without tildes

`smooth` takes the tildes off the load lines of a chunk, all but the ones that are names. A load line
that has any is written anew, with one blank between its words; any other line stays as it is.

Results:
1. `Text.words_joinWith`, `Text.trim_joinWith`, `Text.map_lines`: text that is put together from words
   and from lines.
2. `parse_smoothLine`: what a line without its tildes says.
3. `read_smooth`: a chunk is read with or without its tildes, and to the same program but for them.
-/

namespace ComputerHost

namespace Text

/-- A nonempty text without white space. -/
structure IsWord (w : List Char) : Prop where
  ne_nil : w ≠ []
  solid : ∀ c ∈ w, isBlank c = false

section
variable {c : Char} {s w : List Char} {ws : List (List Char)}

/-! ## 1. Words and lines -/

theorem isWord_of_mem_words (h : w ∈ words s) : IsWord w := by
  obtain ⟨hmem, hne⟩ := List.mem_filter.1 h
  exact ⟨by simpa using hne, splitAt_free hmem⟩

theorem words_joinWith (hws : ∀ w ∈ ws, IsWord w) : words (joinWith ' ' ws) = ws := by
  cases ws with
  | nil => rfl
  | cons w ws =>
    rw [words, splitAt_joinWith (by decide) (fun w hw => (hws w hw).solid) (List.cons_ne_nil w ws),
      List.filter_eq_self]
    intro w hw
    simpa using (hws w hw).ne_nil

theorem trim_eq_self (hfirst : ∀ d ∈ s.head?, isBlank d = false)
    (hlast : ∀ d ∈ s.getLast?, isBlank d = false) : trim s = s := by
  have hstart : s.dropWhile isBlank = s := by
    cases s with
    | nil => rfl
    | cons d s => rw [List.dropWhile_cons_of_neg (by simp [hfirst d rfl])]
  have hend : s.reverse.dropWhile isBlank = s.reverse := by
    rw [← List.head?_reverse] at hlast
    cases hs : s.reverse with
    | nil => rfl
    | cons d _ => rw [List.dropWhile_cons_of_neg (by simp [hlast d (by rw [hs]; rfl)])]
  rw [trim, dropEndWhile, hstart, hend, List.reverse_reverse]

theorem joinWith_ne_nil (hws : ∀ w ∈ ws, IsWord w) (hne : ws ≠ []) : joinWith c ws ≠ [] := by
  cases ws with
  | nil => exact absurd rfl hne
  | cons w ws =>
    have hw := (hws w List.mem_cons_self).ne_nil
    cases ws with
    | nil => exact hw
    | cons v ws => simp [joinWith_cons_cons]

theorem mem_joinWith {c d : Char} {ws : List (List Char)} (h : d ∈ joinWith c ws) :
    d = c ∨ ∃ w ∈ ws, d ∈ w := by
  induction ws with
  | nil => cases h
  | cons w ws ih =>
    cases ws with
    | nil => exact .inr ⟨w, List.mem_cons_self, h⟩
    | cons v ws =>
      rw [joinWith_cons_cons, List.mem_append, List.mem_cons] at h
      obtain h | rfl | h := h
      · exact .inr ⟨w, List.mem_cons_self, h⟩
      · exact .inl rfl
      · exact (ih h).imp id fun ⟨w, hw, hd⟩ => ⟨w, List.mem_cons_of_mem _ hw, hd⟩

/-- Neither the first nor the last character of joined words is white space. -/
theorem joinWith_ends (hws : ∀ w ∈ ws, IsWord w) :
    (∀ d ∈ (joinWith ' ' ws).head?, isBlank d = false) ∧
      ∀ d ∈ (joinWith ' ' ws).getLast?, isBlank d = false := by
  induction ws with
  | nil => simp [joinWith]
  | cons w ws ih =>
    rw [List.forall_mem_cons] at hws
    have hfirst : ∀ d ∈ w.head?, isBlank d = false := fun d hd =>
      hws.1.solid d (List.mem_of_mem_head? hd)
    have hlast : ∀ d ∈ w.getLast?, isBlank d = false := fun d hd =>
      hws.1.solid d (List.mem_of_mem_getLast? hd)
    cases ws with
    | nil => exact ⟨hfirst, hlast⟩
    | cons v ws =>
      obtain ⟨d, w, rfl⟩ := List.exists_cons_of_ne_nil hws.1.ne_nil
      obtain ⟨e, rest, hrest⟩ :=
        List.exists_cons_of_ne_nil (joinWith_ne_nil hws.2 (List.cons_ne_nil v ws))
      have hend := (ih hws.2).2
      rw [hrest] at hend
      rw [joinWith_cons_cons, hrest]
      refine ⟨hfirst, ?_⟩
      rwa [List.getLast?_append, List.getLast?_cons_cons, Option.or_of_isSome (by simp)]

theorem trim_joinWith (hws : ∀ w ∈ ws, IsWord w) : trim (joinWith ' ' ws) = joinWith ' ' ws :=
  trim_eq_self (joinWith_ends hws).1 (joinWith_ends hws).2

theorem trim_append_blank (hc : isBlank c = true) (s : List Char) : trim (s ++ [c]) = trim s := by
  unfold trim
  rw [List.dropWhile_append]
  split
  · next hempty =>
    rw [List.isEmpty_iff.1 hempty, List.dropWhile_cons_of_pos hc, List.dropWhile_nil]
  · rw [dropEndWhile, List.reverse_append, List.reverse_singleton, List.singleton_append,
      List.dropWhile_cons_of_pos hc, dropEndWhile]

theorem trim_dropReturn (line : List Char) : trim (dropReturn line) = trim line := by
  unfold dropReturn
  split
  · next rest hrest =>
    rw [← trim_append_blank (show isBlank '\r' = true by decide), ← List.reverse_cons, ← hrest,
      List.reverse_reverse]
  · rfl

/-- What stands first does not depend on what stands last. -/
theorem head?_trim (s : List Char) : (trim s).head? = (s.dropWhile isBlank).head? := by
  unfold trim
  cases hs : s.dropWhile isBlank with
  | nil => rfl
  | cons d rest =>
    have hd : isBlank d = false := by
      have h := List.head?_dropWhile_not isBlank s
      rwa [hs] at h
    rw [dropEndWhile, List.reverse_cons, List.dropWhile_append]
    split
    · rw [List.dropWhile_cons_of_neg (by simp [hd])]
      rfl
    · rw [List.reverse_append]
      rfl

/-- What the lines of a text come to (`g`) after each of them has been rewritten (`f`). -/
theorem map_lines {α : Type} {f : List Char → List Char} {g : List Char → α} {k : α → α}
    (hnil : ∀ line, f line = [] ↔ line = []) (hfree : ∀ line, '\n' ∉ line → '\n' ∉ f line)
    (hreturn : ∀ line, g (dropReturn line) = g line) (hf : ∀ line, g (f line) = k (g line)) :
    (lines (joinWith '\n' ((splitAt (· == '\n') s).map f))).map g = ((lines s).map g).map k := by
  have hpieces : splitAt (· == '\n') (joinWith '\n' ((splitAt (· == '\n') s).map f)) =
      (splitAt (· == '\n') s).map f := by
    refine splitAt_joinWith rfl (fun w hw d hd => ?_) (by simp [splitAt_ne_nil])
    obtain ⟨piece, hpiece, rfl⟩ := List.mem_map.1 hw
    have hno : '\n' ∉ piece := fun hmem => by simpa using splitAt_free hpiece _ hmem
    refine beq_false_of_ne ?_
    rintro rfl
    exact hfree piece hno hd
  have hempty (line : List Char) : (f line).isEmpty = line.isEmpty := by
    rw [Bool.eq_iff_iff, List.isEmpty_iff, List.isEmpty_iff, hnil]
  unfold lines
  dsimp only
  rw [hpieces, List.getLast?_map, ← List.map_dropLast]
  simp only [List.map_append, List.map_map, Function.comp_def, hreturn, hf]
  congr 1
  cases (splitAt (· == '\n') s).getLast? with
  | none => rfl
  | some last => cases hlast : last.isEmpty <;> simp [hempty, hlast, hf]

end

end Text

namespace Script

open Text

/-! ## 2. Lines -/

namespace Instruction

/-- The line without the tildes, if it is a load. -/
def smooth : Instruction → Instruction
  | .load name pieces => .load name (pieces.filter (· ≠ "~"))
  | instruction => instruction

/-- No piece of a load is empty. -/
def Full : Instruction → Prop
  | .load _ pieces => "" ∉ pieces
  | _ => True

end Instruction

/-- The program without the tildes of its loads. -/
def Program.smooth (p : Program) : Program := { p with rest := p.rest.map Instruction.smooth }

/-- A load line as it is written. -/
def loadLine (name : String) (pieces : List String) : List Char :=
  joinWith ' ' (("load" :: name :: pieces).map String.toList)

/-- The text of a line without the tildes, if it is a load. -/
def smoothLine (line : List Char) : List Char :=
  match Instruction.parse line with
  | .load name pieces =>
    if "~" ∈ pieces then loadLine name (pieces.filter (· ≠ "~")) else line
  | _ => line

section
variable {name word : String} {ps : List String} {line text : List Char}

/-- The words of a load line. -/
theorem isWord_headWord (h : Instruction.headWord text word = (name, ps)) :
    (∀ piece ∈ ps, IsWord piece.toList) ∧ (ps ≠ [] → IsWord name.toList) := by
  unfold Instruction.headWord at h
  have hwords : ∀ w ∈ (words text).map String.ofList, IsWord w.toList := by
    intro w hw
    obtain ⟨cs, hcs, rfl⟩ := List.mem_map.1 hw
    rw [String.toList_ofList]
    exact isWord_of_mem_words hcs
  split at h
  · cases h
    exact ⟨by simp, by simp⟩
  · next first rest heq =>
    cases h
    rw [heq, List.forall_mem_cons] at hwords
    exact ⟨hwords.2, fun _ => hwords.1⟩

theorem ofWord_eq_load (h : Instruction.ofWord word text = .load name ps) :
    word = "load" ∧ Instruction.headWord text "=load" = (name, ps) := by
  unfold Instruction.ofWord at h
  dsimp only at h
  split at h
  case h_16 =>
    cases h
    exact ⟨rfl, rfl⟩
  all_goals cases h

theorem ofWord_load (text : List Char) : Instruction.ofWord "load" text =
    .load (Instruction.headWord text "=load").1 (Instruction.headWord text "=load").2 := rfl

/-- What a line that is a load looks like. -/
theorem parse_eq_load (h : Instruction.parse line = .load name ps) :
    (trim line).head? = some 'l' ∧ (∀ piece ∈ ps, IsWord piece.toList) ∧
      (ps ≠ [] → IsWord name.toList) := by
  unfold Instruction.parse at h
  dsimp only at h
  split at h
  · cases h
  · obtain ⟨hword, hwords⟩ := ofWord_eq_load h
    refine ⟨?_, isWord_headWord hwords⟩
    replace hword := congrArg String.toList hword
    rw [String.toList_ofList] at hword
    cases hcut : cutFirst? ' ' (trim line) with
    | none =>
      rw [hcut] at hword
      rw [show trim line = _ from hword]
      rfl
    | some cut =>
      have heq : trim line = cut.1 ++ ' ' :: cut.2 := eq_of_cutFirst? hcut
      rw [hcut] at hword
      rw [heq, show cut.1 = _ from hword]
      rfl

theorem isWord_loadLine (hname : IsWord name.toList) (hps : ∀ piece ∈ ps, IsWord piece.toList) :
    ∀ w ∈ ("load" :: name :: ps).map String.toList, IsWord w := by
  intro w hw
  obtain ⟨v, hv, rfl⟩ := List.mem_map.1 hw
  rcases List.mem_cons.1 hv with rfl | hv
  · have hload : "load".toList.all (fun c => !isBlank c) = true := rfl
    exact ⟨by decide, fun c hc => by simpa using List.all_eq_true.1 hload c hc⟩
  · rcases List.mem_cons.1 hv with rfl | hv
    · exact hname
    · exact hps v hv

/-- A load line says what it has been written from. -/
theorem parse_loadLine (hname : IsWord name.toList) (hps : ∀ piece ∈ ps, IsWord piece.toList) :
    Instruction.parse (loadLine name ps) = .load name ps := by
  have hwords := isWord_loadLine hname hps
  have hrest : ∀ w ∈ (name :: ps).map String.toList, IsWord w := fun w hw =>
    hwords w (List.mem_cons_of_mem _ hw)
  have hcut : cutFirst? ' ' (loadLine name ps) =
      some ("load".toList, joinWith ' ' ((name :: ps).map String.toList)) :=
    cutFirst?_append (by decide) _
  have hhead : Instruction.headWord (joinWith ' ' ((name :: ps).map String.toList)) "=load" =
      (name, ps) := by
    unfold Instruction.headWord
    rw [words_joinWith hrest]
    simp [Function.comp_def, String.ofList_toList]
  unfold Instruction.parse
  dsimp only
  rw [show trim (loadLine name ps) = loadLine name ps from trim_joinWith hwords, hcut,
    Option.getD_some]
  dsimp only
  rw [if_neg (by decide), trim_joinWith hrest, String.ofList_toList, ofWord_load, hhead]

/-- A line without its tildes says the same but for them. -/
theorem parse_smoothLine (line : List Char) :
    Instruction.parse (smoothLine line) = (Instruction.parse line).smooth := by
  unfold smoothLine
  split
  · next name ps hparse =>
    obtain ⟨-, hps, hname⟩ := parse_eq_load hparse
    rw [hparse]
    split
    · next htilde =>
      exact parse_loadLine (hname (List.ne_nil_of_mem htilde))
        fun piece hpiece => hps piece (List.mem_filter.1 hpiece).1
    · next htilde =>
      have hsame : ps.filter (· ≠ "~") = ps := List.filter_eq_self.2 fun piece hpiece => by
        simpa using fun h : piece = "~" => htilde (h ▸ hpiece)
      rw [hparse, Instruction.smooth, hsame]
  · next hparse =>
    cases hline : Instruction.parse line with
    | load name ps => exact absurd hline (hparse name ps)
    | _ => rfl

theorem full_parse (line : List Char) : (Instruction.parse line).Full := by
  cases hparse : Instruction.parse line with
  | load name ps =>
    intro hmem
    exact ((parse_eq_load hparse).2.1 "" hmem).ne_nil rfl
  | _ => trivial

/-! ## 3. Chunks -/

/-- Does the line spoil its chunk? -/
def spoils (line : List Char) : Bool := (line.dropWhile isBlank).head? = some '!'

theorem spoiled?_eq (lines : List (List Char)) :
    Program.spoiled? lines = ((lines.map spoils).findIdx? id).map (· + 1) := by
  rw [List.findIdx?_map]
  rfl

theorem spoils_eq (line : List Char) : spoils line = decide ((trim line).head? = some '!') := by
  rw [spoils, head?_trim]

theorem parse_dropReturn (line : List Char) :
    Instruction.parse (dropReturn line) = Instruction.parse line := by
  unfold Instruction.parse
  rw [trim_dropReturn]

theorem spoils_dropReturn (line : List Char) : spoils (dropReturn line) = spoils line := by
  rw [spoils_eq, spoils_eq, trim_dropReturn]

/-- A line that has been written anew. -/
theorem smoothLine_cases (line : List Char) : smoothLine line = line ∨
    ∃ name ps, smoothLine line = loadLine name ps ∧ (∀ w ∈ ("load" :: name :: ps).map String.toList,
      IsWord w) ∧ (trim line).head? = some 'l' := by
  unfold smoothLine
  split
  · next name ps hparse =>
    obtain ⟨hfirst, hps, hname⟩ := parse_eq_load hparse
    split
    · next htilde =>
      exact .inr ⟨name, _, rfl, isWord_loadLine (hname (List.ne_nil_of_mem htilde))
        fun piece hpiece => hps piece (List.mem_filter.1 hpiece).1, hfirst⟩
    · exact .inl rfl
  · exact .inl rfl

theorem spoils_smoothLine (line : List Char) : spoils (smoothLine line) = spoils line := by
  obtain hsame | ⟨name, ps, hline, hwords, hfirst⟩ := smoothLine_cases line
  · rw [hsame]
  · rw [spoils_eq, spoils_eq, hfirst, hline, loadLine, trim_joinWith hwords]
    rfl

theorem smoothLine_eq_nil (line : List Char) : smoothLine line = [] ↔ line = [] := by
  obtain hsame | ⟨name, ps, hline, hwords, hfirst⟩ := smoothLine_cases line
  · rw [hsame]
  · rw [hline]
    refine iff_of_false (joinWith_ne_nil hwords (by simp)) ?_
    rintro rfl
    cases hfirst

theorem smoothLine_free (line : List Char) (h : '\n' ∉ line) : '\n' ∉ smoothLine line := by
  obtain hsame | ⟨name, ps, hline, hwords, -⟩ := smoothLine_cases line
  · rwa [hsame]
  · rw [hline]
    intro hmem
    obtain h | ⟨w, hw, hmem⟩ := mem_joinWith hmem
    · cases h
    · cases (hwords w hw).solid _ hmem

/-- The chunk without the tildes of its load lines. -/
def smooth (source : ByteArray) : ByteArray :=
  match String.fromUTF8? source with
  | none => source
  | some text => (String.ofList
      (joinWith '\n' ((splitAt (· == '\n') text.toList).map smoothLine))).toUTF8

theorem fromUTF8?_toUTF8 (text : String) : String.fromUTF8? text.toUTF8 = some text := by
  rw [String.fromUTF8?, dif_pos (show text.toUTF8.IsValidUTF8 from text.isValidUTF8)]
  rfl

/-- A chunk without its tildes is accepted if it is with them, and it is the same program but for
them. -/
theorem read_smooth (source : ByteArray) (chunk : String) :
    Program.read (smooth source) chunk = (Program.read source chunk).map Program.smooth := by
  cases hsource : String.fromUTF8? source with
  | none =>
    rw [show smooth source = source by rw [smooth, hsource], Program.read, hsource]
    rfl
  | some text =>
    have hspoils := map_lines (s := text.toList) (k := id) smoothLine_eq_nil smoothLine_free
      spoils_dropReturn spoils_smoothLine
    have hparse := map_lines (s := text.toList) smoothLine_eq_nil smoothLine_free
      parse_dropReturn parse_smoothLine
    unfold Program.read
    rw [hsource, smooth, hsource]
    dsimp only
    rw [fromUTF8?_toUTF8]
    dsimp only
    rw [spoiled?_eq, spoiled?_eq, String.toList_ofList, hspoils, hparse, List.map_id]
    split
    · rfl
    · rfl

/-- A program that has just been read. -/
theorem waiting_of_read {source : ByteArray} {chunk : String} {p : Program}
    (h : Program.read source chunk = .ok p) : p.loading = none ∧ ∀ line ∈ p.rest, line.Full := by
  unfold Program.read at h
  dsimp only at h
  split at h
  · cases h
  · split at h
    · cases h
    · cases h
      refine ⟨rfl, fun line hline => ?_⟩
      obtain ⟨text, -, rfl⟩ := List.mem_map.1 hline
      exact full_parse text

end

end Script

end ComputerHost

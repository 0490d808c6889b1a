import Mathlib.Data.List.Induction
import ComputerHost.SourcePath

/-!
# Source paths

The canonical chunk name of a path, against the reading of the path from left to right: it is cut at
every slash of either kind (`Cut`), and the pieces are read one after the other while a list of
components is kept (`Reads`). The name is this reading written out. It reads as itself, so it stands
for the path in every longer path as well.

Results:
1. `cut_iff`: the pieces of a path.
2. `reads_iff`, `readsAs_iff`: the components that the pieces leave.
3. `Reads.mem`, `components_absolute`: what is kept, and that it is kept when it is read again.
4. `components_append_slash`: a path that goes on behind a slash.
5. `canonical_form`: the name of a path is a canonical form of it.
-/

namespace ComputerHost.SourcePath

/-- Text without a slash of either kind. -/
def Unslashed (piece : List Char) : Prop :=
  '/' ∉ piece ∧ '\\' ∉ piece

/-- A piece that is a name: neither empty nor one dot nor two dots. -/
def IsPlain (piece : List Char) : Prop :=
  piece ≠ [] ∧ piece ≠ ['.'] ∧ piece ≠ ['.', '.']

/-- The pieces of a path: the text before, between and behind its slashes of either kind. -/
inductive Cut : List Char → List (List Char) → Prop
  | whole {piece : List Char} : Unslashed piece → Cut piece [piece]
  | slash {piece rest : List Char} {c : Char} {pieces : List (List Char)} :
      Unslashed piece → c = '/' ∨ c = '\\' → Cut rest pieces →
      Cut (piece ++ c :: rest) (piece :: pieces)

/-- The components kept after some pieces, in order. An empty piece and one dot change nothing, two
dots take back the component kept last, or nothing if there is none, and any other piece is kept. -/
inductive Reads : List (List Char) → List (List Char) → Prop
  | start : Reads [] []
  | skip {pieces kept : List (List Char)} {piece : List Char} :
      Reads pieces kept → piece = [] ∨ piece = ['.'] → Reads (pieces ++ [piece]) kept
  | back {pieces kept : List (List Char)} {last : List Char} :
      Reads pieces (kept ++ [last]) → Reads (pieces ++ [['.', '.']]) kept
  | atRoot {pieces : List (List Char)} : Reads pieces [] → Reads (pieces ++ [['.', '.']]) []
  | keep {pieces kept : List (List Char)} {piece : List Char} :
      Reads pieces kept → IsPlain piece → Reads (pieces ++ [piece]) (kept ++ [piece])

/-- The components that a path is read as. -/
def ReadsAs (path : String) (kept : List String) : Prop :=
  ∃ pieces, Cut path.toList pieces ∧ Reads pieces (kept.map String.toList)

section
variable {c : Char} {piece part path path' rest : List Char} {pieces kept : List (List Char)}

/-! ## 1. The pieces of a path -/

theorem isSeparator_iff : isSeparator c = true ↔ c = '/' ∨ c = '\\' := by
  simp [isSeparator]

theorem unslashed_iff : Unslashed piece ↔ ∀ c ∈ piece, isSeparator c = false := by
  simp only [← Bool.not_eq_true, isSeparator_iff, not_or]
  constructor
  · rintro ⟨hslash, hback⟩ c hc
    exact ⟨fun he => hslash (he ▸ hc), fun he => hback (he ▸ hc)⟩
  · intro hfree
    exact ⟨fun hm => (hfree _ hm).1 rfl, fun hm => (hfree _ hm).2 rfl⟩

theorem Cut.eq_splitAt (h : Cut path pieces) : pieces = Text.splitAt isSeparator path := by
  induction h with
  | whole hp => exact (Text.splitAt_of_free (unslashed_iff.mp hp)).symm
  | slash hp hc _ ih =>
    rw [Text.splitAt_append (isSeparator_iff.mpr hc), Text.splitAt_of_free (unslashed_iff.mp hp), ← ih,
      List.singleton_append]

/-- A character that is no slash belongs to the first piece. -/
theorem Cut.cons (hc : isSeparator c = false) (h : Cut path (piece :: pieces)) :
    Cut (c :: path) ((c :: piece) :: pieces) := by
  have longer {p : List Char} (hp : Unslashed p) : Unslashed (c :: p) :=
    unslashed_iff.mpr (List.forall_mem_cons.mpr ⟨hc, unslashed_iff.mp hp⟩)
  cases h with
  | whole hp => exact .whole (longer hp)
  | slash hp hs h => exact .slash (longer hp) hs h

theorem cut_splitAt (path : List Char) : Cut path (Text.splitAt isSeparator path) := by
  induction path with
  | nil => exact .whole (unslashed_iff.mpr (List.forall_mem_nil _))
  | cons c rest ih =>
    rw [Text.splitAt]
    split
    · next hc =>
      exact Cut.slash (unslashed_iff.mpr (List.forall_mem_nil _)) (isSeparator_iff.mp hc) ih
    · next hc =>
      split
      · next he => exact absurd he (Text.splitAt_ne_nil isSeparator rest)
      · next first others he =>
        rw [he] at ih
        exact ih.cons (Bool.not_eq_true _ ▸ hc)

theorem cut_iff : Cut path pieces ↔ pieces = Text.splitAt isSeparator path := by
  refine ⟨Cut.eq_splitAt, ?_⟩
  rintro rfl
  exact cut_splitAt path

theorem Cut.unslashed (h : Cut path pieces) (hm : part ∈ pieces) : Unslashed part := by
  rw [h.eq_splitAt] at hm
  exact unslashed_iff.mpr (Text.splitAt_free hm)

/-! ## 2. The components that the pieces leave -/

theorem push_of_skipped (h : piece = [] ∨ piece = ['.']) : push kept piece = kept :=
  if_pos h

theorem push_of_dots : push kept ['.', '.'] = kept.tail := rfl

theorem push_of_isPlain (h : IsPlain piece) : push kept piece = piece :: kept := by
  rw [push, if_neg (not_or.mpr ⟨h.1, h.2.1⟩), if_neg h.2.2]

theorem foldl_push_concat (pieces : List (List Char)) (piece : List Char) :
    (pieces ++ [piece]).foldl push [] = push (pieces.foldl push []) piece :=
  List.foldl_append

/-- The stack has the components kept, the last one on top. -/
theorem Reads.foldl_push (h : Reads pieces kept) : pieces.foldl push [] = kept.reverse := by
  induction h with
  | start => rfl
  | skip _ hp ih => rw [foldl_push_concat, ih, push_of_skipped hp]
  | back _ ih => rw [foldl_push_concat, ih, push_of_dots, List.reverse_concat, List.tail_cons]
  | atRoot _ ih => rw [foldl_push_concat, ih, push_of_dots, List.reverse_nil, List.tail_nil]
  | keep _ hp ih => rw [foldl_push_concat, ih, push_of_isPlain hp, List.reverse_concat]

/-- What one more piece does to a reading is what it does to the stack. -/
theorem Reads.snoc (h : Reads pieces kept.reverse) (piece : List Char) :
    Reads (pieces ++ [piece]) (push kept piece).reverse := by
  by_cases hskip : piece = [] ∨ piece = ['.']
  · rw [push_of_skipped hskip]
    exact h.skip hskip
  by_cases hdots : piece = ['.', '.']
  · subst hdots
    rw [push_of_dots]
    -- An empty stack has an empty tail, but the reading has a rule of its own for it.
    cases kept with
    | nil => exact h.atRoot
    | cons last below =>
      rw [List.reverse_cons] at h
      exact h.back
  · have hplain : IsPlain piece := ⟨(not_or.mp hskip).1, (not_or.mp hskip).2, hdots⟩
    rw [push_of_isPlain hplain, List.reverse_cons]
    exact h.keep hplain

theorem reads_foldl (pieces : List (List Char)) :
    Reads pieces (pieces.foldl push []).reverse := by
  induction pieces using List.reverseRecOn with
  | nil => exact .start
  | append_singleton pieces piece ih =>
    rw [foldl_push_concat]
    exact ih.snoc piece

theorem reads_iff : Reads pieces kept ↔ kept = (pieces.foldl push []).reverse := by
  constructor
  · intro h
    rw [h.foldl_push, List.reverse_reverse]
  · rintro rfl
    exact reads_foldl pieces

theorem reads_components (path : List Char) :
    Reads (Text.splitAt isSeparator path) (components path) :=
  reads_foldl _

theorem map_toList_eq_iff {names : List String} {parts : List (List Char)} :
    names.map String.toList = parts ↔ names = parts.map String.ofList := by
  constructor <;> (rintro rfl; simp [Function.comp_def])

theorem readsAs_iff {path : String} {kept : List String} :
    ReadsAs path kept ↔ kept = (components path.toList).map String.ofList := by
  rw [← map_toList_eq_iff, components]
  simp only [ReadsAs, cut_iff, reads_iff, exists_eq_left]

/-! ## 3. What is kept -/

theorem Reads.mem (h : Reads pieces kept) (hm : part ∈ kept) : part ∈ pieces ∧ IsPlain part := by
  induction h with
  | start => cases hm
  | skip _ _ ih => exact (ih hm).imp_left (List.mem_append_left _)
  | back _ ih => exact (ih (List.mem_append_left _ hm)).imp_left (List.mem_append_left _)
  | atRoot => cases hm
  | keep _ hp ih =>
    rcases List.mem_append.mp hm with hm | hm
    · exact (ih hm).imp_left (List.mem_append_left _)
    · rw [List.mem_singleton] at hm
      subst hm
      exact ⟨List.mem_concat_self, hp⟩

theorem of_mem_components (h : part ∈ components path) : IsPlain part ∧ Unslashed part := by
  obtain ⟨hpiece, hplain⟩ := (reads_components path).mem h
  exact ⟨hplain, (cut_splitAt path).unslashed hpiece⟩

/-- Plain pieces are all kept. -/
theorem reads_of_isPlain (h : ∀ part ∈ kept, IsPlain part) : Reads kept kept := by
  induction kept using List.reverseRecOn with
  | nil => exact .start
  | append_singleton kept part ih =>
    rw [List.forall_mem_append, List.forall_mem_singleton] at h
    exact (ih h.1).keep h.2

theorem components_joinWith (h : ∀ part ∈ kept, IsPlain part ∧ Unslashed part) :
    components (Text.joinWith '/' kept) = kept := by
  -- No components leave the empty text, which is one piece and not none.
  by_cases hne : kept = []
  · subst hne
    rfl
  · rw [components, Text.splitAt_joinWith rfl (fun part hm => unslashed_iff.mp (h part hm).2) hne]
    exact (reads_iff.mp (reads_of_isPlain fun part hm => (h part hm).1)).symm

/-- A slash in front changes nothing. -/
theorem components_slash (path : List Char) : components ('/' :: path) = components path := by
  have hcut : Text.splitAt isSeparator ('/' :: path) = [] :: Text.splitAt isSeparator path := rfl
  rw [components, components, hcut, List.foldl_cons, push_of_skipped (.inl rfl)]

/-- The canonical name of a path without its at sign. -/
def absolute (path : List Char) : List Char :=
  '/' :: Text.joinWith '/' (components path)

/-- A canonical name is read as the path that it names. -/
theorem components_absolute (path : List Char) : components (absolute path) = components path := by
  rw [absolute, components_slash, components_joinWith fun _ => of_mem_components]

theorem canonical_absolute (path : List Char) : canonical (absolute path) = canonical path := by
  rw [canonical, components_absolute, canonical]

theorem canonical_eq_iff : canonical path' = canonical path ↔ components path' = components path := by
  constructor
  · intro h
    have habsolute : absolute path' = absolute path := (List.cons.inj h).2
    rw [← components_absolute path', habsolute, components_absolute]
  · intro h
    rw [canonical, canonical, h]

/-! ## 4. Paths that go on -/

/-- Behind a slash the reading goes on from the components kept so far. -/
theorem components_append_slash (path rest : List Char) :
    components (path ++ '/' :: rest) =
      ((Text.splitAt isSeparator rest).foldl push (components path).reverse).reverse := by
  have hcut : Text.splitAt isSeparator (path ++ '/' :: rest) =
      Text.splitAt isSeparator path ++ Text.splitAt isSeparator rest :=
    Text.splitAt_append (isSeparator_iff.mpr (.inl rfl)) path rest
  rw [components, hcut, List.foldl_append, components, List.reverse_reverse]

theorem canonical_append_slash (h : canonical path' = canonical path) (rest : List Char) :
    canonical (path' ++ '/' :: rest) = canonical (path ++ '/' :: rest) := by
  rw [canonical_eq_iff, components_append_slash, components_append_slash, canonical_eq_iff.mp h]

end

/-! ## 5. Names -/

theorem joinWith_eq_intercalate (c : Char) (parts : List (List Char)) :
    Text.joinWith c parts = [c].intercalate parts := by
  induction parts with
  | nil => rfl
  | cons part parts ih =>
    cases parts with
    | nil => exact List.intercalate_singleton.symm
    | cons next parts =>
      rw [Text.joinWith_cons_cons, ih, List.intercalate_cons_cons, List.append_assoc,
        List.singleton_append]

theorem canonicalName_inj {path path' : String} :
    canonicalName path' = canonicalName path ↔ canonical path'.toList = canonical path.toList :=
  String.ofList_inj

/-- Two paths have one name just if they are read as the same components. -/
theorem canonicalName_eq_iff_readsAs {path path' : String} :
    canonicalName path' = canonicalName path ↔
      ReadsAs path' ((components path.toList).map String.ofList) := by
  rw [canonicalName_inj, canonical_eq_iff, readsAs_iff,
    List.map_inj_right fun _ _ => String.ofList_inj.mp, eq_comm]

theorem canonicalName_eq_intercalate (path : String) :
    canonicalName path = "@/" ++ "/".intercalate ((components path.toList).map String.ofList) := by
  rw [← String.toList_inj, canonicalName, canonical, name, joinWith_eq_intercalate]
  simp [String.toList_intercalate, Function.comp_def]

theorem canonicalName_eq_append (path : String) :
    canonicalName path = "@" ++ String.ofList (absolute path.toList) := by
  rw [← String.toList_inj, canonicalName, canonical, name]
  simp [absolute]

theorem canonicalName_append_slash {path path' : String}
    (h : canonicalName path' = canonicalName path) (rest : String) :
    canonicalName (path' ++ "/" ++ rest) = canonicalName (path ++ "/" ++ rest) := by
  have hlist (p : String) : (p ++ "/" ++ rest).toList = p.toList ++ '/' :: rest.toList := by
    simp
  rw [canonicalName_inj, hlist, hlist]
  exact canonical_append_slash (canonicalName_inj.mp h) rest.toList

theorem of_mem_kept {path part : String}
    (hm : part ∈ (components path.toList).map String.ofList) :
    part ≠ "" ∧ part ≠ "." ∧ part ≠ ".." ∧ '/' ∉ part.toList ∧ '\\' ∉ part.toList := by
  obtain ⟨chars, hchars, rfl⟩ := List.mem_map.mp hm
  obtain ⟨⟨hempty, hdot, hdots⟩, hslash, hback⟩ := of_mem_components hchars
  simp only [ne_eq, ← String.toList_inj, String.toList_ofList]
  exact ⟨hempty, hdot, hdots, hslash, hback⟩

/-- The name of a path is `@/` and the components that the path is read as, with a slash between
neighbours; none of them is empty, one dot or two dots, or holds a slash of either kind. Paths have one
name just if they are read as the same components. Without its at sign the name is a path of the same
name, and what a longer path is named depends on the path in front only through its name. -/
theorem canonical_form (path : String) :
    ∃ kept : List String, ∃ bare : String,
      (∀ kept', ReadsAs path kept' ↔ kept' = kept) ∧
      (∀ part ∈ kept, part ≠ "" ∧ part ≠ "." ∧ part ≠ ".." ∧
        '/' ∉ part.toList ∧ '\\' ∉ part.toList) ∧
      canonicalName path = "@/" ++ "/".intercalate kept ∧
      (∀ path', canonicalName path' = canonicalName path ↔ ReadsAs path' kept) ∧
      canonicalName path = "@" ++ bare ∧
      canonicalName bare = canonicalName path ∧
      (∀ path', canonicalName path' = canonicalName path → ∀ rest,
        canonicalName (path' ++ "/" ++ rest) = canonicalName (path ++ "/" ++ rest)) ∧
      ∀ rest, canonicalName (path ++ "/" ++ rest) = canonicalName (bare ++ "/" ++ rest) := by
  have hbare : canonicalName (String.ofList (absolute path.toList)) = canonicalName path := by
    rw [canonicalName_inj, String.toList_ofList, canonical_absolute]
  refine ⟨(components path.toList).map String.ofList, String.ofList (absolute path.toList), ?_, ?_,
    canonicalName_eq_intercalate path, ?_, canonicalName_eq_append path, hbare, ?_, ?_⟩
  · intro kept'
    exact readsAs_iff
  · intro part hm
    exact of_mem_kept hm
  · intro path'
    exact canonicalName_eq_iff_readsAs
  · intro path' hname rest
    exact canonicalName_append_slash hname rest
  · intro rest
    exact canonicalName_append_slash hbare.symm rest

example : canonicalName "a/./b\\..//..\\../c..d/" = "@/c..d" := rfl

end ComputerHost.SourcePath

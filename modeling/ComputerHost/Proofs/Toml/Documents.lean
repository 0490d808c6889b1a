import Mathlib.Data.List.Perm.Basic
import ComputerHost.Proofs.Toml.Lines

/-!
# Documents

The statements of a document are put together to the entries that it was printed for: plain entries first,
and after them the arrays of records.

Results:
1. `add?_value`, `add?_inner`, `add?_first`, `add?_next`: one statement.
2. `foldlM_valuesOf`, `foldlM_inner`, `foldlM_itemsOf`: the statements of one entry after the other.
3. `parse_print`: whole texts.
-/

namespace ComputerHost.TomlTree

open Draft

/-- Plain entries in a table in the making. -/
def drafts (entries : List (String × TomlTree)) : Entries :=
  entries.map fun entry => (entry.1, .value entry.2)

/-! ## 1. One statement -/

section
variable {entries before last : Entries} {closed : List Entries} {name n : String} {v : TomlTree}

theorem lookup_of_not_mem (h : name ∉ entries.map (·.1)) : entries.lookup name = none := by
  refine List.lookup_eq_none_iff.mpr fun entry hentry => bne_iff_ne.mpr ?_
  rintro rfl
  exact h (List.mem_map_of_mem hentry)

theorem lookup_last (h : name ∉ before.map (·.1)) (draft : Draft) :
    (before ++ [(name, draft)]).lookup name = some draft := by
  rw [List.lookup_append, lookup_of_not_mem h, List.lookup_cons, beq_self_eq_true]
  rfl

theorem replace_last (h : name ∉ before.map (·.1)) (old draft : Draft) :
    replace (before ++ [(name, old)]) name draft = before ++ [(name, draft)] := by
  have hbefore : replace before name draft = before := by
    refine (List.map_congr_left fun entry hentry => if_neg ?_).trans (List.map_id before)
    rintro rfl
    exact h (List.mem_map_of_mem hentry)
  unfold replace at hbefore ⊢
  rw [List.map_append, hbefore]
  simp

/-- A plain entry of a table that may have one. -/
theorem addValue?_fresh (h : name ∉ entries.map (·.1)) (v : TomlTree) :
    addValue? [] name v entries = some (entries ++ [(name, .value v)]) := by
  unfold addValue? changeAt?
  rw [lookup_of_not_mem h]
  rfl

/-- A plain entry at the top of the document. -/
theorem add?_value (h : name ∉ entries.map (·.1)) (v : TomlTree) :
    Assembly.add? ⟨entries, []⟩ (.value [] name v) = some ⟨entries ++ [(name, .value v)], []⟩ := by
  simp only [Assembly.add?, addValueAt?, changeAt?, addValue?_fresh h, Option.map_some]

/-- A plain entry of the item that was begun last. -/
theorem add?_inner (h : name ∉ before.map (·.1)) (hn : n ∉ last.map (·.1)) (v : TomlTree) :
    Assembly.add? ⟨before ++ [(name, .tables closed last)], [name]⟩ (.value [] n v) =
      some ⟨before ++ [(name, .tables closed (last ++ [(n, .value v)]))], [name]⟩ := by
  simp only [Assembly.add?, addValueAt?, changeAt?, lookup_last h, addValue?_fresh hn, Option.map_some,
    replace_last h]

/-- The header of the first item. -/
theorem add?_first (h : name ∉ entries.map (·.1)) (current : List String) :
    Assembly.add? ⟨entries, current⟩ (.item [] name) =
      some ⟨entries ++ [(name, .tables [] [])], [name]⟩ := by
  simp only [Assembly.add?, addItem?, changeAt?, lookup_of_not_mem h, Option.map_some, List.nil_append]

/-- The header of another item. -/
theorem add?_next (h : name ∉ before.map (·.1)) (current : List String) :
    Assembly.add? ⟨before ++ [(name, .tables closed last)], current⟩ (.item [] name) =
      some ⟨before ++ [(name, .tables (closed ++ [last]) [])], [name]⟩ := by
  simp only [Assembly.add?, addItem?, changeAt?, lookup_last h, Option.map_some, List.nil_append,
    replace_last h]

end

/-! ## 2. One entry after the other -/

theorem closeEntries_append (entries more : Entries) :
    closeEntries (entries ++ more) = closeEntries entries ++ closeEntries more := by
  induction entries with
  | nil => rfl
  | cons entry rest ih => rw [List.cons_append, closeEntries, closeEntries, ih, List.cons_append]

theorem closeTables_append (tables more : List Entries) :
    closeTables (tables ++ more) = closeTables tables ++ closeTables more := by
  induction tables with
  | nil => rfl
  | cons entries rest ih => rw [List.cons_append, closeTables, closeTables, ih, List.cons_append]

theorem closeEntries_drafts (entries : List (String × TomlTree)) :
    closeEntries (drafts entries) = entries := by
  induction entries with
  | nil => rfl
  | cons entry rest ih =>
    show (entry.1, Draft.close (.value entry.2)) :: closeEntries (drafts rest) = _
    rw [ih, Draft.close]

theorem keys_drafts (entries : List (String × TomlTree)) :
    (drafts entries).map (·.1) = entries.map (·.1) := by
  simp [drafts]

section
variable {entries : List (String × TomlTree)} {items : List (List (String × TomlTree))}
  {before top last : Entries} {closed : List Entries} {name : String}

/-- Plain entries of a table, wherever it is, that plain entries can be added to. -/
theorem foldlM_valuesOf (place : Entries → Assembly) (table : Entries)
    (hadd : ∀ table n v, n ∉ table.map (·.1) →
      (place table).add? (.value [] n v) = some (place (table ++ [(n, .value v)])))
    (h : (table.map (·.1) ++ entries.map (·.1)).Nodup) :
    (valuesOf entries).foldlM Assembly.add? (place table) = some (place (table ++ drafts entries)) := by
  induction entries generalizing table with
  | nil => simp [valuesOf, drafts]
  | cons entry rest ih =>
    rw [List.map_cons, List.nodup_append] at h
    have hfresh : entry.1 ∉ table.map (·.1) := fun hmem => h.2.2 _ hmem _ List.mem_cons_self rfl
    have hrest : ((table ++ [(entry.1, Draft.value entry.2)]).map (·.1) ++ rest.map (·.1)).Nodup := by
      rw [List.map_append, List.append_assoc]
      exact List.nodup_append.mpr h
    show ((place table).add? (.value [] entry.1 entry.2)).bind
      (fun a => (valuesOf rest).foldlM Assembly.add? a) = _
    rw [hadd table _ _ hfresh, Option.bind_some, ih _ hrest, List.append_assoc]
    rfl

/-- The entries of one item. -/
theorem foldlM_inner (h : name ∉ before.map (·.1)) (hentries : Record entries) :
    (valuesOf entries).foldlM Assembly.add? ⟨before ++ [(name, .tables closed [])], [name]⟩ =
      some ⟨before ++ [(name, .tables closed (drafts entries))], [name]⟩ :=
  foldlM_valuesOf (fun last => ⟨before ++ [(name, .tables closed last)], [name]⟩) []
    (fun _ _ v hn => add?_inner h hn v) (by simpa using hentries.distinct)

/-- The items after one that has been begun. -/
theorem foldlM_itemsOf (h : name ∉ before.map (·.1)) (hitems : ∀ entries ∈ items, Record entries)
    (closed : List Entries) (last : Entries) (current : List String) :
    ∃ draft current', (itemsOf name items).foldlM Assembly.add?
        ⟨before ++ [(name, .tables closed last)], current⟩ = some ⟨before ++ [(name, draft)], current'⟩ ∧
      draft.close = .array (closeTables closed ++ .table (closeEntries last) :: items.map .table) := by
  induction items generalizing closed last current with
  | nil => exact ⟨.tables closed last, current, rfl, by simp [Draft.close]⟩
  | cons entries rest ih =>
    obtain ⟨hentries, hrest⟩ := List.forall_mem_cons.mp hitems
    obtain ⟨draft, current', hfold, hclose⟩ :=
      ih hrest (closed ++ [last]) (drafts entries) [name]
    refine ⟨draft, current', ?_, ?_⟩
    · show (Assembly.add? ⟨before ++ [(name, .tables closed last)], current⟩ (.item [] name)).bind
        (fun a => (valuesOf entries ++ itemsOf name rest).foldlM Assembly.add? a) = _
      rw [add?_next h, Option.bind_some, List.foldlM_append, foldlM_inner h hentries]
      exact hfold
    · rw [hclose, closeTables_append, closeEntries_drafts]
      simp [closeTables]

/-- A whole array of records. -/
theorem foldlM_array (h : name ∉ top.map (·.1)) (hnil : items ≠ [])
    (hitems : ∀ entries ∈ items, Record entries) (current : List String) :
    ∃ draft current', (itemsOf name items).foldlM Assembly.add? ⟨top, current⟩ =
        some ⟨top ++ [(name, draft)], current'⟩ ∧ draft.close = .array (items.map .table) := by
  obtain ⟨entries, rest, rfl⟩ := List.exists_cons_of_ne_nil hnil
  obtain ⟨hentries, hrest⟩ := List.forall_mem_cons.mp hitems
  obtain ⟨draft, current', hfold, hclose⟩ :=
    foldlM_itemsOf h hrest [] (drafts entries) [name]
  refine ⟨draft, current', ?_, ?_⟩
  · show (Assembly.add? ⟨top, current⟩ (.item [] name)).bind
      (fun a => (valuesOf entries ++ itemsOf name rest).foldlM Assembly.add? a) = _
    rw [add?_first h, Option.bind_some, List.foldlM_append, foldlM_inner h hentries]
    exact hfold
  · rw [hclose, closeEntries_drafts]
    rfl

/-- All arrays of records, one after the other. -/
theorem foldlM_arrays (hflat : ∀ entry ∈ entries, Flat entry.2)
    (hdistinct : (top.map (·.1) ++
      (entries.filter fun (_, v) => (tables? v).isSome).map (·.1)).Nodup) (current : List String) :
    ∃ assembled, (entries.flatMap fun (name, v) => ((tables? v).map (itemsOf name)).getD []).foldlM
        Assembly.add? ⟨top, current⟩ = some assembled ∧
      closeEntries assembled.entries =
        closeEntries top ++ entries.filter fun (_, v) => (tables? v).isSome := by
  induction entries generalizing top current with
  | nil => exact ⟨⟨top, current⟩, rfl, by simp⟩
  | cons entry rest ih =>
    obtain ⟨name, v⟩ := entry
    obtain ⟨hv, hrest⟩ := List.forall_mem_cons.mp hflat
    rw [List.flatMap_cons]
    dsimp only at hv ⊢
    cases hv with
    | plain hv =>
      have hnone := tables?_plain hv
      rw [List.filter_cons_of_neg (by simp [hnone])] at hdistinct ⊢
      rw [hnone]
      exact ih hrest hdistinct current
    | @tables items hnil hitems =>
      have hsome := tables?_tables hnil
      rw [List.filter_cons_of_pos (by simp [hsome])] at hdistinct ⊢
      have hfresh : name ∉ top.map (·.1) := fun hmem =>
        (List.nodup_append.mp hdistinct).2.2 _ hmem _ List.mem_cons_self rfl
      obtain ⟨draft, current', hfold, hclose⟩ := foldlM_array hfresh hnil hitems current
      have hkeys : ((top ++ [(name, draft)]).map (·.1) ++
          (rest.filter fun (_, v) => (tables? v).isSome).map (·.1)).Nodup := by simpa using hdistinct
      obtain ⟨assembled, hlast, hentries⟩ := ih hrest hkeys current'
      refine ⟨assembled, ?_, ?_⟩
      · rw [hsome, List.foldlM_append]
        show ((itemsOf name items).foldlM Assembly.add? ⟨top, current⟩).bind _ = _
        rw [hfold]
        exact hlast
      · rw [hentries, closeEntries_append, closeEntries, closeEntries, hclose, List.append_assoc]
        rfl

end

/-! ## 3. Whole texts -/

/-- Entries with bare keys, none of them twice, that hold plain values and arrays of records. -/
structure Document (entries : List (String × TomlTree)) : Prop where
  bare : ∀ entry ∈ entries, isBare entry.1 = true
  flat : ∀ entry ∈ entries, Flat entry.2
  distinct : (entries.map (·.1)).Nodup

/-- The entries in the order in which they are printed. -/
def printed (entries : List (String × TomlTree)) : List (String × TomlTree) :=
  (entries.filter fun (_, v) => (tables? v).isNone) ++ entries.filter fun (_, v) => (tables? v).isSome

theorem printed_perm (entries : List (String × TomlTree)) : (printed entries).Perm entries := by
  have hrest : (entries.filter fun (_, v) => (tables? v).isSome) =
      entries.filter fun entry => !(tables? entry.2).isNone := by
    simp
  rw [printed, hrest]
  exact List.filter_append_perm (fun entry => (tables? entry.2).isNone) entries

section
variable {entries : List (String × TomlTree)}

/-- No byte order mark stands in front of lines. -/
theorem no_mark_of_lines {s t : List Char} {statements : List Statement} (h : Lines s statements) :
    s ≠ '\uFEFF' :: t := by
  rintro rfl
  generalize hs : '\uFEFF' :: t = s at h
  cases h with
  | nil => cases hs
  | blank => cases hs
  | line hline =>
    obtain ⟨c, t', rfl, hc⟩ := hline.begins
    cases hs
    rcases hc with hc | hc <;> cases hc

theorem foldlM_statementsOf (h : Document entries) : ∃ assembled,
    (statementsOf entries).foldlM Assembly.add? ⟨[], []⟩ = some assembled ∧
      closeEntries assembled.entries = printed entries := by
  have hplain : ((entries.filter fun (_, v) => (tables? v).isNone).map (·.1)).Nodup :=
    h.distinct.sublist (List.filter_sublist.map _)
  have hvalues := foldlM_valuesOf (⟨·, []⟩) []
    (fun _ _ v hn => add?_value hn v) (by simpa using hplain)
  have hkeys : ((drafts (entries.filter fun (_, v) => (tables? v).isNone)).map (·.1) ++
      (entries.filter fun (_, v) => (tables? v).isSome).map (·.1)).Nodup := by
    rw [keys_drafts, ← List.map_append]
    exact ((printed_perm entries).map _).nodup_iff.mpr h.distinct
  obtain ⟨assembled, harrays, hentries⟩ := foldlM_arrays h.flat hkeys []
  refine ⟨assembled, ?_, by rw [hentries, closeEntries_drafts, printed]⟩
  rw [statementsOf, List.foldlM_append]
  show (List.foldlM Assembly.add? _ _).bind _ = _
  rw [hvalues]
  exact harrays

/-- A document is read from what is printed for it, in the order in which it is printed. -/
theorem parse_print (h : Document entries) : parse (print entries) = some (.table (printed entries)) := by
  have hlines := lines_print h.bare h.flat
  obtain ⟨assembled, hfold, hentries⟩ := foldlM_statementsOf h
  unfold parse
  split
  · next heq => exact absurd heq (no_mark_of_lines hlines)
  · dsimp only
    rw [readStatements_of_lines hlines (Nat.lt_succ_self _)]
    show (List.foldlM Assembly.add? _ _).bind _ = _
    rw [hfold, Option.bind_some, hentries]
    rfl

end

end ComputerHost.TomlTree

import ComputerHost.HostConfig.Document

/-!
# Integers that fit

Every integer that is read fits in a signed word of 64 bits. An integer that stands at the top of a document
was put there by a single statement: what tables and arrays hold is of no account.

Results:
1. `integer?_fits`, `readValue_fits`, `readStatements_fit`: what is read.
2. `changeAt?_fits`, `add?_fits`: what is put together.
3. `parse_fits`: whole documents.
-/

namespace ComputerHost.TomlTree

/-- It is no integer that is too large. -/
def Fits (v : TomlTree) : Prop := ∀ i : Int, v = .integer i → i < Nat.pow 2 63

/-- The value of a statement fits. -/
def Statement.Fits : Statement → Prop
  | .value _ _ v => v.Fits
  | .table .. | .item .. => True

/-- The values at the top of a table fit. -/
def EntriesFit (entries : Draft.Entries) : Prop := ∀ name v, (name, Draft.value v) ∈ entries → v.Fits

/-! ## 1. Reading -/

section
variable {s rest : List Char} {i : Int} {v : TomlTree} {fuel depth : Nat}

theorem fits_of_ne (h : ∀ i, v ≠ .integer i) : v.Fits := fun i hi => absurd hi (h i)

theorem inBase?_fits {base : Nat} (h : inBase? base s = some i) : i < Nat.pow 2 63 := by
  unfold inBase? at h
  simp only [Option.bind_eq_bind, Option.bind_eq_some_iff] at h
  obtain ⟨digits, -, n, -, hn⟩ := h
  split at hn
  · next hlow =>
    cases hn
    exact Int.ofNat_lt.mpr hlow
  · cases hn

theorem integer?_fits (h : integer? s = some i) : i < Nat.pow 2 63 := by
  unfold integer? at h
  split at h
  · exact inBase?_fits h
  · exact inBase?_fits h
  · exact inBase?_fits h
  · dsimp only at h
    simp only [Option.bind_eq_bind, Option.bind_eq_some_iff] at h
    obtain ⟨digits, -, n, -, hn⟩ := h
    split at hn
    · split at hn
      · cases hn
        have hpos : 0 < Nat.pow 2 63 := by decide
        omega
      · cases hn
    · split at hn
      · next hlow =>
        cases hn
        exact Int.ofNat_lt.mpr hlow
      · cases hn

theorem word?_fits (h : word? s = some v) : v.Fits := by
  unfold word? at h
  split at h
  · cases h
    exact fits_of_ne (by simp)
  · split at h
    · cases h
      exact fits_of_ne (by simp)
    · split at h
      · next hi =>
        cases h
        rintro j ⟨⟩
        exact integer?_fits hi
      · split at h
        · cases h
          exact fits_of_ne (by simp)
        · split at h
          · cases h
            exact fits_of_ne (by simp)
          · cases h

theorem readWord_fits (h : readWord s = some (v, rest)) : v.Fits := by
  have hword {word more : List Char}
      (h : (word? word).bind (fun v => some (v, more)) = some (v, rest)) : v.Fits := by
    obtain ⟨v', hv, heq⟩ := Option.bind_eq_some_iff.mp h
    cases heq
    exact word?_fits hv
  unfold readWord at h
  dsimp only at h
  split at h
  · split at h
    · exact hword h
    · exact hword h
  · exact hword h

theorem readString_fits {read : Option (List Char × List Char)} (h : readString read = some (v, rest)) :
    v.Fits := by
  obtain ⟨found, -, heq⟩ := Option.map_eq_some_iff.mp h
  cases heq
  exact fits_of_ne (by simp)

theorem inlineTable?_fits {pairs : List (List String × String × TomlTree)}
    (h : Draft.inlineTable? pairs = some v) : v.Fits := by
  obtain ⟨entries, -, rfl⟩ := Option.map_eq_some_iff.mp h
  exact fits_of_ne (by simp)

/-- Only a word can be an integer. -/
theorem readValue_fits (h : readValue fuel depth s = some (v, rest)) : v.Fits := by
  cases fuel with
  | zero =>
    rw [readValue] at h
    cases h
  | succ fuel =>
    unfold readValue at h
    split at h
    · exact readString_fits h
    · exact readString_fits h
    · exact readString_fits h
    · exact readString_fits h
    · cases h
    · simp only [Option.bind_eq_bind, Option.bind_eq_some_iff] at h
      obtain ⟨items, -, heq⟩ := h
      cases heq
      exact fits_of_ne (by simp)
    · cases h
    · split at h
      · cases h
        exact fits_of_ne (by simp)
      · simp only [Option.bind_eq_bind, Option.bind_eq_some_iff] at h
        obtain ⟨pairs, -, table, htable, heq⟩ := h
        cases heq
        exact inlineTable?_fits htable
    · exact readWord_fits h

theorem readStatement_fits {statement : Statement} (h : readStatement s = some (statement, rest)) :
    statement.Fits := by
  unfold readStatement at h
  split at h
  · simp only [Option.bind_eq_bind, Option.bind_eq_some_iff] at h
    obtain ⟨key, -, h⟩ := h
    split at h
    · simp only [Option.bind_eq_some_iff] at h
      obtain ⟨_, -, heq⟩ := h
      cases heq
      trivial
    · cases h
  · simp only [Option.bind_eq_bind, Option.bind_eq_some_iff] at h
    obtain ⟨key, -, h⟩ := h
    split at h
    · simp only [Option.bind_eq_some_iff] at h
      obtain ⟨_, -, heq⟩ := h
      cases heq
      trivial
    · cases h
  · simp only [Option.bind_eq_bind, Option.bind_eq_some_iff] at h
    obtain ⟨key, -, h⟩ := h
    split at h
    · simp only [Option.bind_eq_some_iff] at h
      obtain ⟨⟨v, more⟩, hv, _, -, heq⟩ := h
      cases heq
      exact readValue_fits hv
    · cases h

theorem readStatements_fit {statements : List Statement} (h : readStatements fuel s = some statements) :
    ∀ statement ∈ statements, statement.Fits := by
  induction fuel generalizing s statements with
  | zero => cases h
  | succ fuel ih =>
    rw [readStatements] at h
    split at h
    · cases h
      simp
    · simp only [Option.bind_eq_bind, Option.bind_eq_some_iff] at h
      obtain ⟨⟨statement, more⟩, hfirst, later, hlater, heq⟩ := h
      cases heq
      exact List.forall_mem_cons.mpr ⟨readStatement_fits hfirst, ih hlater⟩

end

/-! ## 2. Putting statements together -/

section
variable {entries entries' : Draft.Entries} {name : String} {v : TomlTree} {path : List String}

theorem EntriesFit.append_value (h : EntriesFit entries) (hv : v.Fits) :
    EntriesFit (entries ++ [(name, .value v)]) := by
  intro n w hmem
  rcases List.mem_append.mp hmem with hmem | hmem
  · exact h n w hmem
  · obtain ⟨-, rfl⟩ : n = name ∧ w = v := by simpa using hmem
    exact hv

/-- A table or an array of tables. -/
def Draft.IsPlace (draft : Draft) : Prop := ∀ v, draft ≠ .value v

theorem EntriesFit.append_place (h : EntriesFit entries) {draft : Draft} (hd : draft.IsPlace) :
    EntriesFit (entries ++ [(name, draft)]) := by
  intro n w hmem
  rcases List.mem_append.mp hmem with hmem | hmem
  · exact h n w hmem
  · obtain ⟨-, heq⟩ : n = name ∧ Draft.value w = draft := by simpa using hmem
    exact absurd heq.symm (hd w)

theorem EntriesFit.replace (h : EntriesFit entries) {draft : Draft} (hd : draft.IsPlace) :
    EntriesFit (Draft.replace entries name draft) := by
  intro n w hmem
  obtain ⟨⟨m, old⟩, hold, heq⟩ := List.mem_map.mp hmem
  dsimp only at heq
  split at heq
  · cases heq
    exact absurd rfl (hd w)
  · cases heq
    exact h n w hold

theorem isPlace_table (origin : TomlTree.Origin) (entries : Draft.Entries) :
    (Draft.table origin entries).IsPlace := by
  rintro v ⟨⟩

theorem isPlace_tables (closed : List Draft.Entries) (last : Draft.Entries) :
    (Draft.tables closed last).IsPlace := by
  rintro v ⟨⟩

/-- A change further down leaves the values at the top as they are. -/
theorem changeAt?_fits {dotted : Bool} {change : Origin → Draft.Entries → Option Draft.Entries}
    {origin : Origin}
    (hchange : ∀ origin table table', EntriesFit table → change origin table = some table' →
      EntriesFit table')
    (h : EntriesFit entries) (hc : Draft.changeAt? dotted change path origin entries = some entries') :
    EntriesFit entries' := by
  cases path with
  | nil => exact hchange origin entries entries' h hc
  | cons name rest =>
    unfold Draft.changeAt? at hc
    split at hc
    · obtain ⟨inner, -, rfl⟩ := Option.map_eq_some_iff.mp hc
      exact h.append_place (isPlace_table _ _)
    · cases hc
    · obtain ⟨inner, -, rfl⟩ := Option.map_eq_some_iff.mp hc
      exact h.replace (isPlace_tables _ _)
    · split at hc
      · cases hc
      · obtain ⟨inner, -, rfl⟩ := Option.map_eq_some_iff.mp hc
        exact h.replace (isPlace_table _ _)

theorem addValue?_fits (hv : v.Fits) (h : EntriesFit entries)
    (hc : Draft.addValue? path name v entries = some entries') : EntriesFit entries' := by
  refine changeAt?_fits (fun origin table table' ht hadd => ?_) h hc
  split at hadd
  · cases hadd
  · cases hadd
    exact ht.append_value hv

theorem addTable?_fits (h : EntriesFit entries) (hc : Draft.addTable? path name entries = some entries') :
    EntriesFit entries' := by
  refine changeAt?_fits (fun origin table table' ht hadd => ?_) h hc
  split at hadd
  · cases hadd
    exact ht.append_place (isPlace_table _ _)
  · cases hadd
    exact ht.replace (isPlace_table _ _)
  · cases hadd

theorem addItem?_fits (h : EntriesFit entries) (hc : Draft.addItem? path name entries = some entries') :
    EntriesFit entries' := by
  refine changeAt?_fits (fun origin table table' ht hadd => ?_) h hc
  split at hadd
  · cases hadd
    exact ht.append_place (isPlace_tables _ _)
  · cases hadd
    exact ht.replace (isPlace_tables _ _)
  · cases hadd

theorem add?_fits {a a' : Assembly} {statement : Statement} (hs : statement.Fits)
    (h : EntriesFit a.entries) (hadd : a.add? statement = some a') : EntriesFit a'.entries := by
  cases statement with
  | value path name v =>
    obtain ⟨entries, hc, rfl⟩ := Option.map_eq_some_iff.mp hadd
    exact changeAt?_fits (fun _ _ _ ht hc => addValue?_fits hs ht hc) h hc
  | table path name =>
    obtain ⟨entries, hc, rfl⟩ := Option.map_eq_some_iff.mp hadd
    exact addTable?_fits h hc
  | item path name =>
    obtain ⟨entries, hc, rfl⟩ := Option.map_eq_some_iff.mp hadd
    exact addItem?_fits h hc

theorem foldlM_fits {statements : List Statement} (hs : ∀ statement ∈ statements, statement.Fits)
    {a a' : Assembly} (h : EntriesFit a.entries) (hfold : statements.foldlM Assembly.add? a = some a') :
    EntriesFit a'.entries := by
  induction statements generalizing a with
  | nil =>
    cases hfold
    exact h
  | cons statement later ih =>
    obtain ⟨hfirst, hlater⟩ := List.forall_mem_cons.mp hs
    rw [List.foldlM_cons] at hfold
    obtain ⟨a₁, hadd, hrest⟩ := Option.bind_eq_some_iff.mp hfold
    exact ih hlater (add?_fits hfirst h hadd) hrest

/-! ## 3. Whole documents -/

/-- An integer at the top of a document is a value at the top of its draft. -/
theorem mem_of_mem_closeEntries {i : Int} (h : (name, .integer i) ∈ Draft.closeEntries entries) :
    (name, Draft.value (.integer i)) ∈ entries := by
  induction entries with
  | nil => cases h
  | cons entry rest ih =>
    obtain ⟨n, draft⟩ := entry
    rw [Draft.closeEntries] at h
    rcases List.mem_cons.mp h with heq | hmem
    · obtain ⟨rfl, hclose⟩ := Prod.mk.inj heq
      cases draft with
      | value v =>
        rw [Draft.close] at hclose
        rw [hclose]
        exact List.mem_cons_self
      | table origin entries =>
        rw [Draft.close] at hclose
        cases hclose
      | tables closed last =>
        rw [Draft.close] at hclose
        cases hclose
    · exact List.mem_cons_of_mem _ (ih hmem)

/-- A document is a table, and the values at its top fit. -/
theorem parse_fits {text : String} {tree : TomlTree} (h : parse text = some tree) :
    ∃ entries, tree = .table entries ∧ ∀ name v, (name, v) ∈ entries → v.Fits := by
  unfold parse at h
  simp only [Option.bind_eq_bind, Option.bind_eq_some_iff] at h
  obtain ⟨statements, hread, a, hfold, heq⟩ := h
  cases heq
  refine ⟨_, rfl, fun name v hmem i hi => ?_⟩
  have hfit : EntriesFit a.entries := foldlM_fits (readStatements_fit hread) (by simp [EntriesFit]) hfold
  subst hi
  exact hfit name _ (mem_of_mem_closeEntries hmem) i rfl

end

end ComputerHost.TomlTree

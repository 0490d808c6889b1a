import Mathlib.Data.List.Induction
import ComputerHost.Proofs.Store.Directories

/-!
# Neighbours in a store

Computers with different ids share a store. What is loaded for one of them depends on what was saved for
it, in which order, and not on what was saved for the others in between. A file store makes its directory
with the first save; that this leaves what is loaded alone has to be asked for (`ConfigStore.Ready`), since
a directory may lie where the file of a computer is looked for.

Results:
1. `FileTree.written_cases`: writing a file.
2. `ConfigStore.even_written_other`, `ConfigStore.even_written`: one save.
3. `ConfigStore.load_saveAll`: any number of saves.
-/

namespace ComputerHost

namespace FileTree

/-! ## 1. Writing -/

/-- Writing a file, if that can be done. -/
def written (t : FileTree) (path : String) (content : ByteArray) : FileTree :=
  (t.write path content).toOption.getD t

/-- A file is written where there is no directory, or nothing happens. -/
theorem written_cases (t : FileTree) (path : String) (content : ByteArray)
    (hplace : ∀ place, t.locate path = .ok place → place.asDirectory = false) :
    (t.written path content = t ∧
      ∀ place, t.locate path = .ok place → t.node? place.loc = some .directory) ∨
    ∃ place, t.locate path = .ok place ∧ t.node? place.loc ≠ some .directory ∧
      t.written path content = t.put place.loc (.file content) := by
  unfold written write
  cases hl : t.locate path with
  | error e => exact .inl ⟨rfl, fun place hp => nomatch hp⟩
  | ok place =>
    have hfile := hplace place hl
    cases hn : t.node? place.loc with
    | none => exact .inr ⟨place, rfl, by simp [hn], by simp [bind, Except.bind, hn, hfile]; rfl⟩
    | some node =>
      cases node with
      | file old => exact .inr ⟨place, rfl, by simp [hn], by simp [bind, Except.bind, hn, hfile]; rfl⟩
      | directory =>
        refine .inl ⟨by simp [bind, Except.bind, hn]; rfl, fun place' hp => ?_⟩
        cases hp
        exact hn

end FileTree

namespace ConfigStore

/-! ## 2. One save -/

/-- Settings of several computers saved one after the other. -/
def saveAll (store : ConfigStore) (tree : FileTree) (saved : List (UInt32 × ComputerConfig)) :
    ConfigStore × FileTree :=
  saved.foldl (fun kept s => (kept.1.save kept.2 s.1 s.2).2) (store, tree)

/-- Making the directory of a store changes nothing for a computer. -/
def Ready (store : ConfigStore) (tree : FileTree) (id : UInt32) : Prop :=
  match store with
  | .memory _ => True
  | .files directory => ∀ made, tree.makeDirectories directory = .ok made →
      store.load made id = store.load tree id

/-- Two trees with the same directories and the same file for the settings of a computer. -/
structure Even (directory : String) (id : UInt32) (t t' : FileTree) : Prop where
  workingDir : t'.workingDir = t.workingDir
  directories : ∀ loc, t'.node? loc = some .directory ↔ t.node? loc = some .directory
  file : ∀ place, t.locate (path directory id) = .ok place → t'.node? place.loc = t.node? place.loc

section
variable {directory : String} {id id' : UInt32} {t t' t'' tree : FileTree} {store : ConfigStore}
  {place : FileTree.Place} {c c' : ComputerConfig}

theorem Even.refl (directory : String) (id : UInt32) (t : FileTree) : Even directory id t t :=
  ⟨rfl, fun _ => .rfl, fun _ _ => rfl⟩

theorem Even.keeps (he : Even directory id t t') : FileTree.Keeps (fun _ => True) t t' :=
  ⟨he.workingDir, fun loc => (he.directories loc).mpr, fun _ _ hb => absurd trivial hb⟩

theorem Even.keeps' (he : Even directory id t t') : FileTree.Keeps (fun _ => True) t' t :=
  ⟨he.workingDir.symm, fun loc => (he.directories loc).mp, fun _ _ hb => absurd trivial hb⟩

theorem Even.locate (he : Even directory id t t') (other : UInt32) :
    t'.locate (path directory other) = .ok place ↔ t.locate (path directory other) = .ok place :=
  ⟨FileTree.locate_of_keeps he.keeps', FileTree.locate_of_keeps he.keeps⟩

theorem Even.trans (he : Even directory id t t') (he' : Even directory id t' t'') :
    Even directory id t t'' where
  workingDir := he'.workingDir.trans he.workingDir
  directories loc := (he'.directories loc).trans (he.directories loc)
  file place hl := (he'.file place ((he.locate id).mpr hl)).trans (he.file place hl)

/-- What is loaded depends on the file alone. -/
theorem Even.load (he : Even directory id t t') :
    (ConfigStore.files directory).load t' id = (ConfigStore.files directory).load t id := by
  unfold ConfigStore.load FileTree.holds FileTree.find? FileTree.readText FileTree.read
  cases hl : t.locate (path directory id) with
  | error e =>
    cases hl' : t'.locate (path directory id) with
    | error e' => simp [hl, hl']
    | ok place =>
      rw [(he.locate id).mp hl'] at hl
      cases hl
  | ok place => simp [hl, (he.locate id).mpr hl, he.file place hl, bind, Except.bind]

/-- With its directory in place a store is ready. -/
theorem ready_of_stands (hs : tree.Stands directory) : (ConfigStore.files directory).Ready tree id := by
  intro made hm
  cases hs.symm.trans hm
  rfl

/-- With its directory in place a store writes one file. -/
theorem save_of_stands (hs : t.Stands directory) (id : UInt32) (c : ComputerConfig) :
    ((ConfigStore.files directory).save t id c).2 =
      (.files directory, t.written (path directory id) c.toText.toUTF8) := by
  have hmade : t.makePath directory = (.ok (), t) := FileTree.makeDirectories_eq_ok_iff.mp hs
  unfold save FileTree.written FileTree.writeText
  dsimp only
  rw [hmade]
  dsimp only
  cases t.write (path directory id) c.toText.toUTF8 <;> rfl

/-- A file that is put where there is no directory. -/
theorem even_put (hl : t.locate (path directory id') = .ok place)
    (hn : t.node? place.loc ≠ some .directory) (hne : id' ≠ id) (content : ByteArray) :
    Even directory id t (t.put place.loc (.file content)) := by
  have hput := FileTree.node?_put hn (.file content)
  refine ⟨rfl, fun loc => ?_, fun own hown => ?_⟩
  · rw [hput]
    split
    · next heq => simp [heq, hn]
    · exact .rfl
  · rw [hput, if_neg]
    -- The two locations end in different names.
    intro heq
    have hlast := (place_of_locate hown).2
    rw [heq, (place_of_locate hl).2] at hlast
    exact hne (fileName_inj (Option.some.inj hlast))

theorem written_file (t : FileTree) (directory : String) (id : UInt32) (c : ComputerConfig) :
    (t.written (path directory id) c.toText.toUTF8 = t ∧
      ∀ place, t.locate (path directory id) = .ok place → t.node? place.loc = some .directory) ∨
    ∃ place, t.locate (path directory id) = .ok place ∧ t.node? place.loc ≠ some .directory ∧
      t.written (path directory id) c.toText.toUTF8 = t.put place.loc (.file c.toText.toUTF8) :=
  t.written_cases _ _ fun _ hl => (place_of_locate hl).1

theorem stands_written (hs : t.Stands directory) (id : UInt32) (c : ComputerConfig) :
    (t.written (path directory id) c.toText.toUTF8).Stands directory := by
  rcases written_file t directory id c with ⟨heq, -⟩ | ⟨place, -, hn, heq⟩
  · rwa [heq]
  · rw [heq]
    exact FileTree.stands_of_makeDirectories hs (FileTree.keeps_put_file hn _)

/-- Saving settings of one computer makes no difference to another one. -/
theorem even_written_other (hne : id' ≠ id) :
    Even directory id t (t.written (path directory id') c.toText.toUTF8) := by
  rcases written_file t directory id' c with ⟨heq, -⟩ | ⟨place, hl, hn, heq⟩
  · rw [heq]
    exact .refl ..
  · rw [heq]
    exact even_put hl hn hne _

/-- Saving the same settings of a computer in both trees keeps them even. -/
theorem even_written (he : Even directory id t t') :
    Even directory id (t.written (path directory id) c.toText.toUTF8)
      (t'.written (path directory id) c.toText.toUTF8) := by
  rcases written_file t directory id c with ⟨heq, hall⟩ | ⟨place, hl, hn, heq⟩
  · rcases written_file t' directory id c with ⟨heq', -⟩ | ⟨place, hl', hn', -⟩
    · rw [heq, heq']
      exact he
    · have hl := (he.locate id).mp hl'
      exact absurd ((he.directories _).mpr (hall place hl)) hn'
  · rcases written_file t' directory id c with ⟨-, hall⟩ | ⟨place', hl', hn', heq'⟩
    · exact absurd ((he.directories _).mp (hall place ((he.locate id).mpr hl))) hn
    · rw [(he.locate id).mpr hl] at hl'
      cases hl'
      have hput := FileTree.node?_put hn (.file c.toText.toUTF8)
      have hput' := FileTree.node?_put hn' (.file c.toText.toUTF8)
      rw [heq, heq']
      refine ⟨he.workingDir, fun loc => ?_, fun own hown => ?_⟩
      · rw [hput, hput']
        split
        · exact .rfl
        · exact he.directories loc
      · have hk := FileTree.keeps_put_file hn (.file c.toText.toUTF8)
        rw [FileTree.locate_of_keeps hk hl] at hown
        cases hown
        rw [hput, hput', if_pos rfl, if_pos rfl]

/-! ## 3. Any number of saves -/

theorem saveAll_append (store : ConfigStore) (tree : FileTree)
    (saved later : List (UInt32 × ComputerConfig)) :
    store.saveAll tree (saved ++ later) =
      (store.saveAll tree saved).1.saveAll (store.saveAll tree saved).2 later :=
  List.foldl_append

/-- A store whose directory can be made is the same after the first save as with its directory made
beforehand. -/
theorem saveAll_made {made : FileTree} (hm : tree.makeDirectories directory = .ok made)
    (saved : List (UInt32 × ComputerConfig)) (hne : saved ≠ []) :
    (ConfigStore.files directory).saveAll tree saved =
      (ConfigStore.files directory).saveAll made saved := by
  obtain ⟨s, later, rfl⟩ := List.exists_cons_of_ne_nil hne
  have hstands : made.Stands directory :=
    FileTree.stands_of_makeDirectories hm (.refl (fun _ => True) made)
  have hfirst : (ConfigStore.files directory).save tree s.1 s.2 =
      (ConfigStore.files directory).save made s.1 s.2 := by
    unfold save
    dsimp only
    rw [FileTree.makeDirectories_eq_ok_iff.mp hm, FileTree.makeDirectories_eq_ok_iff.mp hstands]
  unfold saveAll
  rw [List.foldl_cons, List.foldl_cons, hfirst]

/-- A store whose directory cannot be made keeps nothing. -/
theorem saveAll_of_makePath {grown : FileTree} {e : FileError}
    (hm : tree.makePath directory = (.error e, grown)) (saved : List (UInt32 × ComputerConfig)) :
    (ConfigStore.files directory).saveAll tree saved = (.files directory, tree) ∨
      (ConfigStore.files directory).saveAll tree saved = (.files directory, grown) := by
  have hsave {t : FileTree} {e : FileError} (hm : t.makePath directory = (.error e, grown))
      (s : UInt32 × ComputerConfig) :
      ((ConfigStore.files directory).save t s.1 s.2).2 = (.files directory, grown) := by
    unfold save
    dsimp only
    rw [hm]
  obtain ⟨e', hagain⟩ := FileTree.makePath_again hm
  induction saved using List.reverseRecOn with
  | nil => exact .inl rfl
  | append_singleton saved s ih =>
    refine .inr ?_
    rw [saveAll_append]
    obtain heq | heq := ih
    · rw [heq]
      exact hsave hm s
    · rw [heq]
      exact hsave hagain s

theorem saveAll_concat (hs : t.Stands directory) {saved : List (UInt32 × ComputerConfig)}
    (heq : (ConfigStore.files directory).saveAll tree saved = (.files directory, t))
    (s : UInt32 × ComputerConfig) :
    (ConfigStore.files directory).saveAll tree (saved ++ [s]) =
      (.files directory, t.written (path directory s.1) s.2.toText.toUTF8) := by
  rw [saveAll_append, heq]
  exact save_of_stands hs s.1 s.2

/-- With the directory in place, any saves lead to a tree that is even with the one that the saves for one
computer alone lead to. -/
theorem even_saveAll (hs : t.Stands directory) (id : UInt32) (saved : List (UInt32 × ComputerConfig)) :
    ∃ t₁ t₂, (ConfigStore.files directory).saveAll t saved = (.files directory, t₁) ∧
      (ConfigStore.files directory).saveAll t (saved.filter (·.1 = id)) = (.files directory, t₂) ∧
      t₁.Stands directory ∧ t₂.Stands directory ∧ Even directory id t₂ t₁ := by
  induction saved using List.reverseRecOn with
  | nil => exact ⟨t, t, rfl, rfl, hs, hs, .refl ..⟩
  | append_singleton saved s ih =>
    obtain ⟨t₁, t₂, heq₁, heq₂, hs₁, hs₂, he⟩ := ih
    rw [List.filter_append, saveAll_concat hs₁ heq₁ s]
    by_cases hid : s.1 = id
    · rw [List.filter_cons_of_pos (by simpa using hid), List.filter_nil, saveAll_concat hs₂ heq₂ s]
      subst hid
      exact ⟨_, _, rfl, rfl, stands_written hs₁ .., stands_written hs₂ .., even_written he⟩
    · rw [List.filter_cons_of_neg (by simpa using hid), List.filter_nil, List.append_nil]
      exact ⟨_, t₂, rfl, heq₂, stands_written hs₁ .., hs₂, he.trans (even_written_other hid)⟩

theorem lookup_saveAll (tree : FileTree) (kept : List (UInt32 × ComputerConfig)) (id : UInt32)
    (saved : List (UInt32 × ComputerConfig)) :
    ∃ kept₁ kept₂, (ConfigStore.memory kept).saveAll tree saved = (.memory kept₁, tree) ∧
      (ConfigStore.memory kept).saveAll tree (saved.filter (·.1 = id)) = (.memory kept₂, tree) ∧
      kept₁.lookup id = kept₂.lookup id := by
  induction saved using List.reverseRecOn with
  | nil => exact ⟨kept, kept, rfl, rfl, rfl⟩
  | append_singleton saved s ih =>
    obtain ⟨kept₁, kept₂, heq₁, heq₂, hlookup⟩ := ih
    have hsave {kept' : List (UInt32 × ComputerConfig)} {saved : List (UInt32 × ComputerConfig)}
        (heq : (ConfigStore.memory kept).saveAll tree saved = (.memory kept', tree)) :
        (ConfigStore.memory kept).saveAll tree (saved ++ [s]) =
          (.memory ((s.1, s.2) :: kept'.filter (·.1 != s.1)), tree) := by
      rw [saveAll_append, heq]
      rfl
    rw [List.filter_append, hsave heq₁]
    by_cases hid : s.1 = id
    · rw [List.filter_cons_of_pos (by simpa using hid), List.filter_nil, hsave heq₂]
      exact ⟨_, _, rfl, rfl, by simp [hid]⟩
    · have hother : (id == s.1) = false := by simpa using Ne.symm hid
      rw [List.filter_cons_of_neg (by simpa using hid), List.filter_nil, List.append_nil]
      refine ⟨_, kept₂, rfl, heq₂, ?_⟩
      rw [List.lookup_cons, hother, lookup_filter_ne, if_neg (Ne.symm hid)]
      exact hlookup

/-- What is loaded for a computer after any saves is what the saves for that computer alone lead to. -/
theorem load_saveAll (hr : store.Ready tree id) (saved : List (UInt32 × ComputerConfig)) :
    (store.saveAll tree saved).1.load (store.saveAll tree saved).2 id =
      (store.saveAll tree (saved.filter (·.1 = id))).1.load
        (store.saveAll tree (saved.filter (·.1 = id))).2 id := by
  cases store with
  | memory kept =>
    obtain ⟨kept₁, kept₂, heq₁, heq₂, hlookup⟩ := lookup_saveAll tree kept id saved
    rw [heq₁, heq₂]
    simp [load, hlookup]
  | files directory =>
    cases hm : tree.makeDirectories directory with
    | error e =>
      obtain ⟨grown, hpath⟩ := FileTree.makeDirectories_eq_error_iff.mp hm
      have hdefault (saved : List (UInt32 × ComputerConfig)) :
          ((ConfigStore.files directory).saveAll tree saved).1.load
            ((ConfigStore.files directory).saveAll tree saved).2 id = .ok .default := by
        obtain heq | heq := saveAll_of_makePath hpath saved <;> rw [heq]
        · have hk : FileTree.Keeps (fun _ => True) tree (tree.makePath directory).2 :=
            FileTree.keeps_makePath tree directory
          rw [hpath] at hk
          exact load_of_makePath hpath hk id
        · exact load_of_makePath hpath (.refl (fun _ => True) grown) id
      rw [hdefault, hdefault]
    | ok made =>
      -- Nothing is lost by making the directory beforehand.
      have hload (saved : List (UInt32 × ComputerConfig)) :
          ((ConfigStore.files directory).saveAll tree saved).1.load
            ((ConfigStore.files directory).saveAll tree saved).2 id =
          ((ConfigStore.files directory).saveAll made saved).1.load
            ((ConfigStore.files directory).saveAll made saved).2 id := by
        by_cases hnil : saved = []
        · subst hnil
          exact (hr made hm).symm
        · rw [saveAll_made hm saved hnil]
      have hstands : made.Stands directory :=
        FileTree.stands_of_makeDirectories hm (.refl (fun _ => True) made)
      obtain ⟨t₁, t₂, heq₁, heq₂, -, -, he⟩ := even_saveAll hstands id saved
      rw [hload, hload, heq₁, heq₂]
      exact he.load

end

end ConfigStore

end ComputerHost

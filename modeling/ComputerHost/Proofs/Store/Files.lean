import ComputerHost.ConfigStore
import ComputerHost.Proofs.Store.Document
import ComputerHost.Proofs.Table

/-!
# What a store keeps

The settings that were saved last for a computer are those that are loaded, whatever is saved for others and
whatever directories are made. `FileTree.Keeps` is what an operation leaves of a tree, and `ConfigStore.Keeps`
says that settings are kept for a computer.

Results:
1. `FileTree.locate_of_keeps`, `FileTree.keeps_makeDirectories`, `FileTree.keeps_put_file`: trees.
2. `FilePath.piecesOf_join`, `ConfigStore.place_of_locate`: where the file of a computer is.
3. `ConfigStore.load_of_keeps`, `ConfigStore.keeps_save`, `ConfigStore.keeps_save_other`: stores.
-/

namespace ComputerHost

namespace FileTree

/-! ## 1. Trees -/

/-- What is left of a tree: all directories, and all files but those at the given locations. -/
structure Keeps (but : List String → Prop) (t t' : FileTree) : Prop where
  workingDir : t'.workingDir = t.workingDir
  directories : ∀ loc, t.node? loc = some .directory → t'.node? loc = some .directory
  files : ∀ loc content, ¬but loc → t.node? loc = some (.file content) →
    t'.node? loc = some (.file content)

section
variable {but : List String → Prop} {t t' t'' : FileTree} {loc : List String} {path : String}
  {place : Place}

theorem Keeps.refl (but : List String → Prop) (t : FileTree) : Keeps but t t :=
  ⟨rfl, fun _ hn => hn, fun _ _ _ hn => hn⟩

theorem Keeps.trans (hk : Keeps but t t') (hk' : Keeps but t' t'') : Keeps but t t'' where
  workingDir := hk'.workingDir.trans hk.workingDir
  directories loc hn := hk'.directories loc (hk.directories loc hn)
  files loc content hb hn := hk'.files loc content hb (hk.files loc content hb hn)

theorem Keeps.mono {but' : List String → Prop} (hk : Keeps but t t') (hsub : ∀ loc, but loc → but' loc) :
    Keeps but' t t' where
  workingDir := hk.workingDir
  directories := hk.directories
  files loc content hb hn := hk.files loc content (fun hbut => hb (hsub loc hbut)) hn

theorem Keeps.node? (hk : Keeps (fun _ => False) t t') {node : FileNode} (hn : t.node? loc = some node) :
    t'.node? loc = some node := by
  cases node with
  | directory => exact hk.directories loc hn
  | file content => exact hk.files loc content not_false hn

theorem lookup?_put (t : FileTree) (loc : List String) (node : FileNode) (other : List String) :
    lookup? (t.put loc node).nodes other = if other = loc then some node else lookup? t.nodes other := by
  unfold lookup? put
  rw [List.find?_append, List.find?_singleton, find?_filter_ne]
  split
  · next heq => simp [heq]
  · next hne => rw [if_neg (by simpa using Ne.symm hne), Option.or_none]

/-- Something can be put wherever there is no directory. -/
theorem node?_put (hn : t.node? loc ≠ some .directory) (node : FileNode) (other : List String) :
    (t.put loc node).node? other = if other = loc then some node else t.node? other := by
  unfold node? at hn ⊢
  by_cases hfixed : other = [] ∨ other = t.workingDir
  · have hne : other ≠ loc := fun heq => hn (if_pos (heq ▸ hfixed))
    rw [if_neg hne, if_pos hfixed]
    exact if_pos hfixed
  · rw [if_neg hfixed, ← lookup?_put]
    exact if_neg hfixed

theorem enter_eq_ok_iff {loc' : List String} :
    t.enter loc = .ok loc' ↔ t.node? loc = some .directory ∧ loc' = loc := by
  unfold enter
  cases hn : t.node? loc with
  | none => simp
  | some node => cases node <;> simp [eq_comm]

theorem enter_of_directory (hn : t.node? loc = some .directory) : t.enter loc = .ok loc :=
  enter_eq_ok_iff.mpr ⟨hn, rfl⟩

/-- What is followed begins in a directory, and goes on from there. -/
theorem descend_cons_eq_ok_iff {name : String} {rest from₁ to₁ : List String} :
    t.descend from₁ (name :: rest) = .ok to₁ ↔ t.node? from₁ = some .directory ∧
      (if name = ".." then t.descend from₁.dropLast rest
        else if nameFits name then t.descend (from₁ ++ [name]) rest
        else .error .invalidFilename) = .ok to₁ := by
  rw [descend]
  cases he : t.enter from₁ with
  | error e =>
    have hn : t.node? from₁ ≠ some .directory := fun hn => by
      rw [enter_of_directory hn] at he
      cases he
    exact iff_of_false (fun h => nomatch h) fun h => hn h.1
  | ok loc =>
    obtain ⟨hn, rfl⟩ := enter_eq_ok_iff.mp he
    exact (and_iff_right hn).symm

theorem descend_of_keeps (hk : Keeps but t t') {names : List String} {from₁ to₁ : List String}
    (hd : t.descend from₁ names = .ok to₁) : t'.descend from₁ names = .ok to₁ := by
  induction names generalizing from₁ with
  | nil =>
    obtain ⟨hn, heq⟩ := enter_eq_ok_iff.mp hd
    exact enter_eq_ok_iff.mpr ⟨hk.directories _ hn, heq⟩
  | cons name rest ih =>
    obtain ⟨hn, hgoes⟩ := descend_cons_eq_ok_iff.mp hd
    refine descend_cons_eq_ok_iff.mpr ⟨hk.directories _ hn, ?_⟩
    split at hgoes
    · next hup =>
      rw [if_pos hup]
      exact ih hgoes
    · next hup =>
      rw [if_neg hup]
      split at hgoes
      · next hfits =>
        rw [if_pos hfits]
        exact ih hgoes
      · cases hgoes

/-- A path that leads somewhere leads to the same place afterwards. -/
theorem locate_of_keeps (hk : Keeps but t t') (hl : t.locate path = .ok place) :
    t'.locate path = .ok place := by
  unfold locate at hl ⊢
  rw [hk.workingDir]
  split at hl
  · cases hl
  · next hnul =>
    rw [if_neg hnul]
    split at hl
    · cases hl
    · next hempty =>
      rw [if_neg hempty]
      dsimp only at hl ⊢
      split at hl
      · exact hl
      · split at hl
        · next hup =>
          rw [if_pos hup]
          cases hd : t.descend _ _ with
          | error e =>
            rw [hd] at hl
            cases hl
          | ok loc =>
            rw [hd] at hl
            rw [descend_of_keeps hk hd]
            exact hl
        · next hup =>
          rw [if_neg hup]
          cases hd : t.descend _ _ with
          | error e =>
            rw [hd] at hl
            cases hl
          | ok parent =>
            rw [hd] at hl
            rw [descend_of_keeps hk hd]
            exact hl

theorem node?_start (t : FileTree) (path : String) :
    t.node? (if FilePath.isAbsolute path then [] else t.workingDir) = some .directory := by
  unfold node?
  rw [if_pos]
  split
  · exact .inl rfl
  · exact .inr rfl

theorem keeps_put_new (hn : t.node? loc = none) (node : FileNode) : Keeps but t (t.put loc node) := by
  have hfree : t.node? loc ≠ some .directory := by simp [hn]
  have hput := node?_put hfree node
  refine ⟨rfl, fun other hd => ?_, fun other content _ hf => ?_⟩
  · rw [hput, if_neg, hd]
    rintro rfl
    rw [hn] at hd
    cases hd
  · rw [hput, if_neg, hf]
    rintro rfl
    rw [hn] at hf
    cases hf

theorem keeps_put_file (hn : t.node? loc ≠ some .directory) (node : FileNode) :
    Keeps (· = loc) t (t.put loc node) := by
  have hput := node?_put (t := t) hn node
  refine ⟨rfl, fun other hd => ?_, fun other content hb hf => ?_⟩
  · rw [hput, if_neg, hd]
    rintro rfl
    exact hn hd
  · rw [hput, if_neg hb, hf]

theorem keeps_makeDirectory (hm : t.makeDirectory path = .ok t') : Keeps but t t' := by
  unfold makeDirectory at hm
  cases hl : t.locate path with
  | error e =>
    rw [hl] at hm
    cases hm
  | ok place =>
    rw [hl] at hm
    cases hn : t.node? place.loc with
    | some node =>
      simp only [bind, Except.bind, hn] at hm
      cases hm
    | none =>
      simp only [bind, Except.bind, hn] at hm
      cases hm
      exact keeps_put_new hn .directory

/-- Directories may be made in part, and nothing is lost either way. -/
theorem keeps_makeAll (t : FileTree) (paths : List String) : Keeps but t (t.makeAll paths).2 := by
  induction paths with
  | nil => exact .refl but t
  | cons path shorter ih =>
    rw [makeAll]
    split
    · next made hmade => exact keeps_makeDirectory hmade
    · -- What the directory lies in is made first.
      split
      · next hall => rwa [hall] at ih
      · next t₁ hall =>
        rw [hall] at ih
        split
        · next made hmade => exact ih.trans (keeps_makeDirectory hmade)
        · exact ih
    · exact .refl but t

theorem keeps_makePath (t : FileTree) (path : String) : Keeps but t (t.makePath path).2 := by
  unfold makePath
  split
  · exact .refl but t
  · exact keeps_makeAll ..

theorem makeDirectories_eq_ok_iff : t.makeDirectories path = .ok t' ↔ t.makePath path = (.ok (), t') := by
  unfold makeDirectories
  rcases t.makePath path with ⟨_ | ⟨⟩, made⟩ <;> simp

theorem makeDirectories_eq_error_iff {e : FileError} :
    t.makeDirectories path = .error e ↔ ∃ grown, t.makePath path = (.error e, grown) := by
  unfold makeDirectories
  rcases t.makePath path with ⟨_ | ⟨⟩, made⟩ <;> simp

theorem keeps_makeDirectories (hm : t.makeDirectories path = .ok t') : Keeps but t t' := by
  have hk : Keeps but t (t.makePath path).2 := keeps_makePath t path
  rwa [makeDirectories_eq_ok_iff.mp hm] at hk

theorem exists_of_holds (hh : t.holds path = true) :
    ∃ place node, t.locate path = .ok place ∧ t.node? place.loc = some node := by
  unfold holds find? at hh
  cases hl : t.locate path with
  | error e =>
    rw [hl] at hh
    cases hh
  | ok place =>
    cases hn : t.node? place.loc with
    | none => simp [hl, hn] at hh
    | some node => exact ⟨place, node, rfl, hn⟩

theorem holds_of_keeps (hk : Keeps (fun _ => False) t t') (hh : t.holds path = true) :
    t'.holds path = true := by
  obtain ⟨place, node, hl, hn⟩ := exists_of_holds hh
  have hl' := locate_of_keeps hk hl
  have hn' := hk.node? hn
  simp only [holds, find?, hl, hn] at hh
  simpa only [holds, find?, hl', hn'] using hh

/-- A file that was written is at the end of its path, and everything else is as it was. -/
theorem write_ok {content : ByteArray} (hw : t.write path content = .ok t') :
    ∃ place, t.locate path = .ok place ∧ place.asDirectory = false ∧ Keeps (· = place.loc) t t' ∧
      t'.node? place.loc = some (.file content) := by
  unfold write at hw
  cases hl : t.locate path with
  | error e =>
    rw [hl] at hw
    cases hw
  | ok place =>
    rw [hl] at hw
    have hput (hn : t.node? place.loc ≠ some .directory) (hplace : place.asDirectory = false)
        (heq : t.put place.loc (.file content) = t') :
        ∃ place', (.ok place : Except FileError Place) = .ok place' ∧ place'.asDirectory = false ∧
          Keeps (· = place'.loc) t t' ∧ t'.node? place'.loc = some (.file content) := by
      subst heq
      exact ⟨place, rfl, hplace, keeps_put_file hn _,
        (node?_put hn _ _).trans (if_pos rfl)⟩
    cases hn : t.node? place.loc with
    | none =>
      simp only [bind, Except.bind, hn] at hw
      split at hw
      · cases hw
      · next hplace => exact hput (by simp [hn]) (by simpa using hplace) (Except.ok.inj hw)
    | some node =>
      cases node with
      | directory =>
        simp only [bind, Except.bind, hn] at hw
        cases hw
      | file old =>
        simp only [bind, Except.bind, hn] at hw
        split at hw
        · cases hw
        · next hplace => exact hput (by simp [hn]) (by simpa using hplace) (Except.ok.inj hw)

end

end FileTree

/-! ## 2. Where the file of a computer is -/

namespace FilePath

/-- A name that is joined to a path is its last piece. -/
theorem piecesOf_join (base : String) {name : String} (hname : ∀ c ∈ name.toList, c ≠ '/') :
    ∃ pieces, Text.piecesOf (· == '/') (join base name) = pieces ++ [name] := by
  have hfree : Text.splitAt (· == '/') name.toList = [name.toList] :=
    Text.splitAt_of_free fun c hc => by simpa using hname c hc
  have hrelative : isAbsolute name = false := by
    unfold isAbsolute
    cases hs : name.toList with
    | nil => rfl
    | cons c rest => simpa using hname c (by rw [hs]; exact List.mem_cons_self)
  have hslash (s : List Char) : ∃ pieces,
      (Text.splitAt (· == '/') (s ++ '/' :: name.toList)).map String.ofList = pieces ++ [name] := by
    rw [Text.splitAt_append rfl, hfree]
    exact ⟨(Text.splitAt (· == '/') s).map String.ofList, by simp⟩
  unfold join Text.piecesOf
  rw [hrelative]
  simp only [Bool.false_eq_true, if_false]
  split
  · next hends =>
    rw [String.toList_append]
    rcases hends with rfl | hends
    · exact ⟨[], by simp [hfree]⟩
    · obtain ⟨s, hs⟩ := List.getLast?_eq_some_iff.mp hends
      rw [hs, List.append_assoc]
      exact hslash s
  · rw [String.toList_append, String.toList_append, List.append_assoc]
    exact hslash base.toList

end FilePath

namespace ConfigStore

/-- The name of the file that keeps the settings of a computer. -/
def fileName (id : UInt32) : String := s!"{id.toNat}.json"

theorem toList_fileName (id : UInt32) :
    (fileName id).toList = Nat.toDigits 10 id.toNat ++ ".json".toList := by
  have happend : fileName id = id.toNat.repr ++ ".json" := rfl
  rw [happend, String.toList_append, Nat.toList_repr]

theorem fileName_inj {id id' : UInt32} (heq : fileName id = fileName id') : id = id' := by
  have hlist := congrArg String.toList heq
  rw [toList_fileName, toList_fileName] at hlist
  have hdigits : Nat.toDigits 10 id.toNat = Nat.toDigits 10 id'.toNat := List.append_cancel_right hlist
  have hnat := congrArg (Nat.ofDigitChars 10 · 0) hdigits
  simp only [Nat.ofDigitChars_ten_toDigits] at hnat
  exact UInt32.toNat_inj.mp hnat

theorem not_mem_fileName (id : UInt32) : ∀ c ∈ (fileName id).toList, c ≠ '/' := by
  intro c hc
  rw [toList_fileName] at hc
  rcases List.mem_append.mp hc with hc | hc
  · rintro rfl
    exact absurd (Nat.isDigit_of_mem_toDigits (by decide) (by decide) hc) (by decide)
  · rintro rfl
    have hdot : '/' ∉ ".json".toList := by decide
    exact hdot hc

/-- It is a name and not `.` or `..`, since it has more than two characters. -/
theorem length_fileName (id : UInt32) : 5 < (fileName id).toList.length := by
  have hdigits := List.length_pos_of_ne_nil (Nat.toDigits_ne_nil (b := 10) (n := id.toNat))
  rw [toList_fileName, List.length_append]
  exact Nat.lt_add_of_pos_left hdigits

/-- The location of the file ends in its name. -/
theorem place_of_locate {t : FileTree} {directory : String} {id : UInt32} {place : FileTree.Place}
    (hl : t.locate (path directory id) = .ok place) :
    place.asDirectory = false ∧ place.loc.getLast? = some (fileName id) := by
  have hlength := length_fileName id
  have hne {s : String} (hs : s.toList.length ≤ 5) : fileName id ≠ s := by
    rintro rfl
    exact Nat.not_lt.mpr hs hlength
  obtain ⟨pieces, hpieces⟩ := FilePath.piecesOf_join directory (not_mem_fileName id)
  have hkept : (FileTree.pieces (path directory id)).1.getLast? = some (fileName id) ∧
      (FileTree.pieces (path directory id)).2 = false := by
    unfold FileTree.pieces
    rw [show Text.piecesOf (· == '/') (path directory id) = pieces ++ [fileName id] from hpieces]
    simp [List.filter_append, hne (s := "") (by decide), hne (s := ".") (by decide)]
  -- The name is a piece of its own, and none of those that are followed.
  have hup : fileName id ≠ ".." := hne (by decide)
  unfold FileTree.locate at hl
  generalize FileTree.pieces (path directory id) = found at hkept hl
  obtain ⟨names, asDirectory⟩ := found
  obtain ⟨hlast, rfl⟩ := hkept
  split at hl
  · cases hl
  · split at hl
    · cases hl
    · dsimp only at hl hlast
      rw [hlast] at hl
      simp only [if_neg hup] at hl
      cases hd : t.descend _ names.dropLast with
      | error e =>
        rw [hd] at hl
        cases hl
      | ok parent =>
        rw [hd] at hl
        simp only [bind, Except.bind] at hl
        split at hl
        · cases hl
          exact ⟨rfl, List.getLast?_concat ..⟩
        · cases hl

/-! ## 3. Stores -/

/-- These are the settings that are kept for a computer. -/
def Keeps (store : ConfigStore) (tree : FileTree) (id : UInt32) (c : ComputerConfig) : Prop :=
  match store with
  | .memory saved => saved.lookup id = some c
  | .files directory => ∃ place, tree.locate (path directory id) = .ok place ∧
      tree.node? place.loc = some (.file c.toText.toUTF8)

section
variable {store : ConfigStore} {tree tree' : FileTree} {id id' : UInt32} {c c' : ComputerConfig}

theorem fromUTF8?_toByteArray (text : String) : String.fromUTF8? text.toByteArray = some text :=
  dif_pos text.isValidUTF8

theorem load_of_keeps (hk : store.Keeps tree id c) : store.load tree id = .ok c := by
  cases store with
  | memory saved =>
    have hlookup : saved.lookup id = some c := hk
    simp [load, hlookup]
  | files directory =>
    obtain ⟨place, hl, hn⟩ := hk
    have hplace := (place_of_locate hl).1
    have hholds : tree.holds (path directory id) = true := by
      simp [FileTree.holds, FileTree.find?, hl, hn, hplace]
    have hread : tree.read (path directory id) = .ok c.toText.toUTF8 := by
      simp [FileTree.read, hl, hn, hplace, bind, Except.bind, pure, Except.pure]
    have htext : tree.readText (path directory id) = .ok c.toText := by
      simp [FileTree.readText, hread, bind, Except.bind, fromUTF8?_toByteArray, pure, Except.pure]
    simp [load, hholds, htext, ComputerConfig.ofText?_toText]

theorem keeps_of_tree (hk : store.Keeps tree id c) (ht : FileTree.Keeps (fun _ => False) tree tree') :
    store.Keeps tree' id c := by
  cases store with
  | memory saved => exact hk
  | files directory =>
    obtain ⟨place, hl, hn⟩ := hk
    exact ⟨place, FileTree.locate_of_keeps ht hl, ht.files _ _ not_false hn⟩

/-- Directories that were made matter to what is loaded only where something is found that was not found
before. -/
theorem load_of_grown (store : ConfigStore) (ht : FileTree.Keeps (fun _ => False) tree tree')
    (id : UInt32) : store.load tree' id = store.load tree id ∨
      ∃ directory, store = .files directory ∧ tree.holds (path directory id) = false ∧
        tree'.holds (path directory id) = true := by
  cases store with
  | memory saved => exact .inl rfl
  | files directory =>
    cases hnew : tree'.holds (path directory id) with
    | false =>
      left
      have hold : tree.holds (path directory id) = false := by
        rw [Bool.eq_false_iff] at hnew ⊢
        exact fun hh => hnew (FileTree.holds_of_keeps ht hh)
      simp [load, hnew, hold]
    | true =>
      cases hold : tree.holds (path directory id) with
      | false => exact .inr ⟨directory, rfl, hold, hnew⟩
      | true =>
        left
        obtain ⟨place, node, hl, hn⟩ := FileTree.exists_of_holds hold
        have hl' := FileTree.locate_of_keeps ht hl
        have hn' := ht.node? hn
        simp [load, hnew, hold, FileTree.readText, FileTree.read, hl, hl', hn, hn', bind, Except.bind]

/-- A file store makes its directory and then writes one file. Either may fail. -/
theorem save_files (directory : String) (tree : FileTree) (id : UInt32) (c : ComputerConfig) :
    ((ConfigStore.files directory).save tree id c).2.1 = .files directory ∧
      (((ConfigStore.files directory).save tree id c).1 ≠ .ok () ∧
        FileTree.Keeps (fun _ => False) tree ((ConfigStore.files directory).save tree id c).2.2 ∨
      ∃ made, FileTree.Keeps (fun _ => False) tree made ∧
        made.writeText (path directory id) c.toText =
          .ok ((ConfigStore.files directory).save tree id c).2.2) := by
  unfold save
  dsimp only
  have hk : FileTree.Keeps (fun _ => False) tree (tree.makePath directory).2 :=
    FileTree.keeps_makePath tree directory
  split
  · next hmade =>
    rw [hmade] at hk
    exact ⟨rfl, .inl ⟨by simp, hk⟩⟩
  · next made hmade =>
    rw [hmade] at hk
    split
    · exact ⟨rfl, .inl ⟨by simp, hk⟩⟩
    · next tree' hw => exact ⟨rfl, .inr ⟨made, hk, hw⟩⟩

/-- What was saved is kept. -/
theorem keeps_save (hs : (store.save tree id c).1 = .ok ()) :
    (store.save tree id c).2.1.Keeps (store.save tree id c).2.2 id c := by
  cases store with
  | memory saved => simp [save, Keeps]
  | files directory =>
    obtain ⟨hstore, ⟨hfails, -⟩ | ⟨made, -, hw⟩⟩ := save_files directory tree id c
    · exact absurd hs hfails
    · obtain ⟨place, hl, -, hk, hn⟩ := FileTree.write_ok hw
      rw [hstore]
      exact ⟨place, FileTree.locate_of_keeps hk hl, hn⟩

/-- Saving settings of one computer leaves those of the others. -/
theorem keeps_save_other (hk : store.Keeps tree id c) (hne : id' ≠ id) :
    (store.save tree id' c').2.1.Keeps (store.save tree id' c').2.2 id c := by
  cases store with
  | memory saved =>
    have hother : (id == id') = false := by simpa using Ne.symm hne
    show List.lookup id ((id', c') :: saved.filter (·.1 != id')) = some c
    rw [List.lookup_cons, hother, lookup_filter_ne, if_neg (Ne.symm hne)]
    exact hk
  | files directory =>
    obtain ⟨hstore, ⟨-, ht⟩ | ⟨made, hmade, hw⟩⟩ := save_files directory tree id' c'
    · rw [hstore]
      exact keeps_of_tree hk ht
    · obtain ⟨place, hl, hn⟩ := keeps_of_tree hk hmade
      obtain ⟨place', hl', -, hkeeps, -⟩ := FileTree.write_ok hw
      rw [hstore]
      -- The two locations end in different names.
      have hplace : place.loc ≠ place'.loc := by
        intro heq
        have hlast := (place_of_locate hl).2
        rw [heq, (place_of_locate hl').2] at hlast
        exact hne (fileName_inj (Option.some.inj hlast))
      exact ⟨place, FileTree.locate_of_keeps hkeeps hl, hkeeps.files _ _ hplace hn⟩

end

end ConfigStore

end ComputerHost

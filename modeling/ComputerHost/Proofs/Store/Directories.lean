import ComputerHost.Proofs.Store.Files
import ComputerHost.Proofs.Store.Paths

/-!
# Directories

Where a path leads, which directories are made for it, and what comes of it when they cannot all be made. A
directory that was made can be followed (`followed`). If making it fails, directories above it may have been
made, but no file of it can be found before or afterwards, and it fails again the next time.

Results:
1. `FileTree.locate_eq_ok_iff`, `FileTree.isDirectory_iff_followed`, `FileTree.followed_of_extends`:
   following a path.
2. `FileTree.followed_of_makeDirectories`, `FileTree.stands_of_makeDirectories`, `FileTree.locate_join`: a
   directory is made once, and its files lie in it.
3. `FileTree.locate_join_of_makePath`, `FileTree.makePath_again`: a directory that cannot be made.
4. `ConfigStore.holdable_fileName`, `ConfigStore.load_of_makePath`: the files of a store.
-/

namespace ComputerHost

namespace FileTree

open FilePath

/-! ## 1. Following a path -/

/-- The location of the directory that a path names. -/
def followed (t : FileTree) (path : String) : Except FileError (List String) :=
  t.descend (if isAbsolute path then [] else t.workingDir) (kept path)

section
variable {but : List String → Prop} {t t' made : FileTree} {directory path shorter name : String}
  {loc : List String} {place : Place} {paths : List String}

theorem descend_append (t : FileTree) (from₁ names more : List String) :
    t.descend from₁ (names ++ more) = (t.descend from₁ names).bind (t.descend · more) := by
  induction names generalizing from₁ with
  | nil =>
    -- Both sides look at the first location.
    show t.descend from₁ more = (t.enter from₁).bind (t.descend · more)
    cases he : t.enter from₁ with
    | error e => cases more <;> simp [descend, he, bind, Except.bind]
    | ok loc =>
      obtain ⟨-, rfl⟩ := enter_eq_ok_iff.mp he
      rfl
  | cons name rest ih =>
    rw [List.cons_append, descend, descend]
    cases t.enter from₁ with
    | error e => rfl
    | ok loc =>
      simp only [bind, Except.bind]
      split
      · exact ih _
      · split
        · exact ih _
        · rfl

theorem followed_of_keeps (hk : Keeps but t t') (hf : t.followed path = .ok loc) :
    t'.followed path = .ok loc := by
  unfold followed at hf ⊢
  rw [hk.workingDir]
  exact descend_of_keeps hk hf

/-- What can be followed ends in a directory. -/
theorem directory_of_descend {from₁ names to₁ : List String} (hd : t.descend from₁ names = .ok to₁) :
    t.node? to₁ = some .directory := by
  induction names generalizing from₁ with
  | nil =>
    obtain ⟨hn, rfl⟩ := enter_eq_ok_iff.mp hd
    exact hn
  | cons name rest ih =>
    obtain ⟨-, hgoes⟩ := descend_cons_eq_ok_iff.mp hd
    split at hgoes
    · exact ih hgoes
    · split at hgoes
      · exact ih hgoes
      · cases hgoes

theorem isDirectory_iff : t.isDirectory path = true ↔
    ∃ place, t.locate path = .ok place ∧ t.node? place.loc = some .directory := by
  unfold isDirectory find?
  cases hl : t.locate path with
  | error e => simp
  | ok place =>
    cases hn : t.node? place.loc with
    | none => simp [hn]
    | some node =>
      cases node with
      | directory => simp [hn]
      | file content =>
        cases hd : place.asDirectory <;> simp [hn, hd]

/-- Where a path leads: to where it starts, to a directory that it goes up to, or to a name in a
directory. -/
inductive Leads (t : FileTree) (path : String) : Place → Prop
  | start : kept path = [] → Leads t path ⟨if isAbsolute path then [] else t.workingDir, true, false⟩
  | up {loc : List String} : (kept path).getLast? = some ".." → t.followed path = .ok loc →
      Leads t path ⟨loc, true, false⟩
  | named {parents parent : List String} {last : String} : kept path = parents ++ [last] →
      last ≠ ".." → nameFits last = true →
      t.descend (if isAbsolute path then [] else t.workingDir) parents = .ok parent →
      Leads t path ⟨parent ++ [last], (pieces path).2, true⟩

theorem leads_of_nil (hkept : kept path = []) : Leads t path place ↔
    place = ⟨if isAbsolute path then [] else t.workingDir, true, false⟩ := by
  constructor
  · intro hl
    cases hl with
    | start => rfl
    | up hup => simp [hkept] at hup
    | named hnamed => simp [hkept] at hnamed
  · rintro rfl
    exact .start hkept

theorem leads_of_up {parents : List String} (hkept : kept path = parents ++ [".."]) :
    Leads t path place ↔ ∃ loc, t.followed path = .ok loc ∧ place = ⟨loc, true, false⟩ := by
  constructor
  · intro hl
    cases hl with
    | start hnil => simp [hkept] at hnil
    | up _ hf => exact ⟨_, hf, rfl⟩
    | named hnamed hne =>
      rw [hkept] at hnamed
      exact absurd (List.singleton_inj.mp (List.append_inj' hnamed rfl).2).symm hne
  · rintro ⟨loc, hf, rfl⟩
    exact .up (by simp [hkept]) hf

theorem leads_of_named {parents : List String} {last : String} (hkept : kept path = parents ++ [last])
    (hup : last ≠ "..") : Leads t path place ↔ nameFits last = true ∧ ∃ parent,
      t.descend (if isAbsolute path then [] else t.workingDir) parents = .ok parent ∧
        place = ⟨parent ++ [last], (pieces path).2, true⟩ := by
  constructor
  · intro hl
    cases hl with
    | start hnil => simp [hkept] at hnil
    | up hlast => exact absurd (by simpa [hkept] using hlast) hup
    | named hnamed _ hfits hd =>
      rw [hkept] at hnamed
      obtain ⟨rfl, hlast⟩ := List.append_inj' hnamed rfl
      obtain rfl := List.singleton_inj.mp hlast
      exact ⟨hfits, _, hd, rfl⟩
  · rintro ⟨hfits, parent, hd, rfl⟩
    exact .named hkept hup hfits hd

theorem locate_eq_ok_iff : t.locate path = .ok place ↔
    '\x00' ∉ path.toList ∧ path ≠ "" ∧ Leads t path place := by
  by_cases hnul : '\x00' ∈ path.toList
  · refine iff_of_false (fun hl => ?_) fun hl => hl.1 hnul
    rw [locate, if_pos (by simpa using hnul)] at hl
    cases hl
  by_cases hempty : path = ""
  · refine iff_of_false (fun hl => ?_) fun hl => hl.2.1 hempty
    rw [locate, if_neg (by simpa using hnul), if_pos hempty] at hl
    cases hl
  rw [and_iff_right hnul, and_iff_right hempty, locate, if_neg (by simpa using hnul), if_neg hempty]
  dsimp only
  obtain hkept | ⟨parents, last, hkept⟩ := List.eq_nil_or_concat' (kept path)
  · rw [leads_of_nil hkept, show (pieces path).1 = [] from hkept]
    simp only [List.getLast?_nil, Except.ok.injEq]
    exact eq_comm
  · have hnames : (pieces path).1 = parents ++ [last] := hkept
    rw [hnames, List.getLast?_concat]
    by_cases hup : last = ".."
    · subst hup
      rw [leads_of_up hkept, followed, hkept]
      cases t.descend (if isAbsolute path = true then [] else t.workingDir) (parents ++ [".."]) with
      | error e => exact iff_of_false nofun nofun
      | ok loc => simp [bind, Except.bind, pure, Except.pure, eq_comm]
    · rw [leads_of_named hkept hup]
      simp only [if_neg hup, List.dropLast_concat]
      cases t.descend (if isAbsolute path = true then [] else t.workingDir) parents with
      | error e => exact iff_of_false nofun nofun
      | ok parent => cases nameFits last <;> simp [bind, Except.bind, pure, Except.pure, eq_comm]

theorem exists_descend_of_append {from₁ names more to₁ : List String}
    (hd : t.descend from₁ (names ++ more) = .ok to₁) : ∃ loc, t.descend from₁ names = .ok loc := by
  rw [descend_append] at hd
  cases hnames : t.descend from₁ names with
  | error e =>
    rw [hnames] at hd
    cases hd
  | ok loc => exact ⟨loc, rfl⟩

/-- A path can be followed if there is a directory at its end. -/
theorem isDirectory_iff_followed (hnul : '\x00' ∉ path.toList) (hempty : path ≠ "") :
    t.isDirectory path = true ↔ ∃ loc, t.followed path = .ok loc := by
  rw [isDirectory_iff]
  constructor
  · rintro ⟨place, hl, hn⟩
    cases (locate_eq_ok_iff.mp hl).2.2 with
    | start hkept =>
      rw [followed, hkept]
      exact ⟨_, enter_of_directory hn⟩
    | up _ hf => exact ⟨_, hf⟩
    | @named parents parent last hkept hup hfits hd =>
      refine ⟨parent ++ [last], ?_⟩
      rw [followed, hkept, descend_append, hd]
      refine descend_cons_eq_ok_iff.mpr ⟨directory_of_descend hd, ?_⟩
      rw [if_neg hup, if_pos hfits]
      exact enter_of_directory hn
  · rintro ⟨loc, hf⟩
    have hn := directory_of_descend hf
    suffices hleads : ∃ place, Leads t path place ∧ place.loc = loc by
      obtain ⟨place, hl, rfl⟩ := hleads
      exact ⟨place, locate_eq_ok_iff.mpr ⟨hnul, hempty, hl⟩, hn⟩
    obtain hkept | ⟨parents, last, hkept⟩ := List.eq_nil_or_concat' (kept path)
    · rw [followed, hkept] at hf
      obtain ⟨-, rfl⟩ := enter_eq_ok_iff.mp hf
      exact ⟨_, .start hkept, rfl⟩
    · by_cases hup : last = ".."
      · exact ⟨_, .up (by simp [hkept, hup]) hf, rfl⟩
      · rw [followed, hkept, descend_append] at hf
        cases hd : t.descend (if isAbsolute path = true then [] else t.workingDir) parents with
        | error e =>
          rw [hd] at hf
          cases hf
        | ok parent =>
          rw [hd] at hf
          obtain ⟨-, hgoes⟩ := descend_cons_eq_ok_iff.mp hf
          rw [if_neg hup] at hgoes
          split at hgoes
          · next hfits =>
            obtain ⟨-, rfl⟩ := enter_eq_ok_iff.mp hgoes
            exact ⟨_, .named hkept hup hfits hd, rfl⟩
          · cases hgoes

theorem followed_of_isDirectory (hd : t.isDirectory path = true) :
    ∃ loc, t.followed path = .ok loc := by
  obtain ⟨place, hl, -⟩ := isDirectory_iff.mp hd
  obtain ⟨hnul, hempty, -⟩ := locate_eq_ok_iff.mp hl
  exact (isDirectory_iff_followed hnul hempty).mp hd

/-- On the way of a path that leads somewhere there are directories. -/
theorem followed_of_extends (hl : t.locate path = .ok place) (he : Extends path shorter) :
    ∃ loc, t.followed shorter = .ok loc := by
  obtain ⟨habsolute, more, hmore, hkept⟩ := he
  unfold followed
  rw [← habsolute]
  cases (locate_eq_ok_iff.mp hl).2.2 with
  | start hnil => simp [hkept, hmore] at hnil
  | up _ hf =>
    rw [followed, hkept] at hf
    exact exists_descend_of_append hf
  | named hnamed _ _ hd =>
    obtain ⟨before, last, rfl⟩ := (List.eq_nil_or_concat' more).resolve_left hmore
    rw [hkept, ← List.append_assoc] at hnamed
    obtain ⟨rfl, -⟩ := List.append_inj' hnamed rfl
    exact exists_descend_of_append hd

theorem followed_congr (habsolute : isAbsolute path = isAbsolute directory)
    (hkept : kept path = kept directory) (t : FileTree) : t.followed path = t.followed directory := by
  unfold followed
  rw [habsolute, hkept]

/-! ## 2. Directories that are made -/

theorem isDirectory_of_makeDirectory (hm : t.makeDirectory path = .ok made) :
    made.isDirectory path = true := by
  have hkeeps : Keeps (fun _ => True) t made := keeps_makeDirectory hm
  unfold makeDirectory at hm
  cases hl : t.locate path with
  | error e =>
    rw [hl] at hm
    cases hm
  | ok place =>
    refine isDirectory_iff.mpr ⟨place, locate_of_keeps hkeeps hl, ?_⟩
    rw [hl] at hm
    cases hn : t.node? place.loc with
    | some node =>
      simp only [bind, Except.bind, hn] at hm
      cases hm
    | none =>
      simp only [bind, Except.bind, hn] at hm
      cases hm
      rw [node?_put (by simp [hn]), if_pos rfl]

theorem isDirectory_of_makeAll (hm : t.makeAll (path :: paths) = (.ok (), made)) :
    made.isDirectory path = true := by
  rw [makeAll] at hm
  split at hm
  · next made' hmade =>
    cases hm
    exact isDirectory_of_makeDirectory hmade
  · split at hm
    · cases hm
    · split at hm
      · next made' hmade =>
        cases hm
        exact isDirectory_of_makeDirectory hmade
      · split at hm
        · next hdirectory =>
          cases hm
          exact hdirectory
        · cases hm
  · split at hm
    · next hdirectory =>
      cases hm
      exact hdirectory
    · cases hm

theorem makeAll_of_isDirectory (hd : t.isDirectory path = true) (paths : List String) :
    t.makeAll (path :: paths) = (.ok (), t) := by
  obtain ⟨place, hl, hn⟩ := isDirectory_iff.mp hd
  have hmake : t.makeDirectory path = .error .alreadyExists := by
    simp only [makeDirectory, hl, hn, bind, Except.bind]
    rfl
  simp [makeAll, hmake, hd]

/-- A directory that has been made can be followed. -/
theorem followed_of_makeDirectories (hm : t.makeDirectories directory = .ok made) :
    ∃ loc, made.followed directory = .ok loc := by
  have hpath := makeDirectories_eq_ok_iff.mp hm
  unfold makePath at hpath
  split at hpath
  · cases hpath
  · obtain ⟨-, hkept⟩ | ⟨path, shorter, hcuts, habsolute, hkept⟩ := cuts_nil_or directory
    · rw [followed, hkept]
      exact ⟨_, enter_of_directory (node?_start made directory)⟩
    · rw [hcuts] at hpath
      rw [← followed_congr habsolute hkept]
      exact followed_of_isDirectory (isDirectory_of_makeAll hpath)

/-- There is nothing left to make of a directory. -/
def Stands (t : FileTree) (directory : String) : Prop := t.makeDirectories directory = .ok t

/-- What has been made stays, whatever files are written and whatever directories are made. -/
theorem stands_of_makeDirectories (hm : t.makeDirectories directory = .ok made)
    (hk : Keeps but made t') : t'.Stands directory := by
  have hpath := makeDirectories_eq_ok_iff.mp hm
  refine makeDirectories_eq_ok_iff.mpr ?_
  unfold makePath at hpath ⊢
  split at hpath
  · cases hpath
  · next hnul =>
    rw [if_neg hnul]
    cases hcuts : cuts directory with
    | nil => rfl
    | cons path shorter =>
      rw [hcuts] at hpath
      obtain ⟨place, hl, hn⟩ := isDirectory_iff.mp (isDirectory_of_makeAll hpath)
      exact makeAll_of_isDirectory
        (isDirectory_iff.mpr ⟨place, locate_of_keeps hk hl, hk.directories _ hn⟩) shorter

/-- A directory that is there stands. -/
theorem stands_of_isDirectory (hnul : directory.toList.contains '\x00' = false)
    (hcuts : cuts directory = directory :: paths) (hd : t.isDirectory directory = true) :
    t.Stands directory := by
  refine makeDirectories_eq_ok_iff.mpr ?_
  rw [makePath, hnul, hcuts]
  exact makeAll_of_isDirectory hd paths

/-- A file name that a directory can hold. -/
structure Holdable (name : String) : Prop extends IsName name where
  dot : name ≠ "."
  up : name ≠ ".."
  nul : '\x00' ∉ name.toList
  fits : nameFits name = true

/-- A file of a directory lies in it. -/
theorem locate_join (hf : t.followed directory = .ok loc) (hnul : '\x00' ∉ directory.toList)
    (hname : Holdable name) :
    t.locate (FilePath.join directory name) = .ok ⟨loc ++ [name], false, true⟩ := by
  have hkept : kept (FilePath.join directory name) = kept directory ++ [name] := by
    rw [kept_join directory hname.toIsName, List.filter_cons_of_pos (by simp [hname.nonempty, hname.dot])]
    rfl
  have hnul' : '\x00' ∉ (FilePath.join directory name).toList := by
    unfold FilePath.join
    split
    · exact hname.nul
    · split <;> simp [hnul, hname.nul]
  have hlast : (pieces (FilePath.join directory name)).2 = false := by
    obtain ⟨before, hbefore⟩ := piecesOf_join directory hname.slash
    unfold pieces
    rw [hbefore]
    simp [hname.nonempty, hname.dot]
  have hempty : FilePath.join directory name ≠ "" := by
    intro hempty
    rw [hempty] at hkept
    exact absurd (congrArg List.length hkept) (by simp [kept, pieces, Text.piecesOf, Text.splitAt])
  have hparent : t.descend
      (if isAbsolute (FilePath.join directory name) then [] else t.workingDir) (kept directory) =
        .ok loc := by
    rw [isAbsolute_join directory hname.toIsName]
    exact hf
  rw [locate_eq_ok_iff, ← hlast]
  exact ⟨hnul', hempty, .named hkept hname.up hname.fits hparent⟩

/-! ## 3. Directories that cannot be made -/

/-- Of a path that cannot be made, some cut is no directory afterwards. -/
theorem exists_not_isDirectory_of_makeAll {e : FileError} (hm : t.makeAll paths = (.error e, t')) :
    ∃ path ∈ paths, t'.isDirectory path = false := by
  induction paths generalizing t' e with
  | nil => cases hm
  | cons path shorter ih =>
    have hlast {made : FileTree} {e₁ : FileError}
        (hm : (if made.isDirectory path then .ok () else .error e₁, made) =
          ((.error e, t') : Except FileError Unit × FileTree)) :
        ∃ cut ∈ path :: shorter, t'.isDirectory cut = false := by
      split at hm
      · cases hm
      · next hdirectory =>
        cases hm
        exact ⟨path, List.mem_cons_self, by simpa using hdirectory⟩
    rw [makeAll] at hm
    split at hm
    · cases hm
    · split at hm
      · next hall =>
        cases hm
        obtain ⟨cut, hcut, hdirectory⟩ := ih hall
        exact ⟨cut, List.mem_cons_of_mem path hcut, hdirectory⟩
      · split at hm
        · cases hm
        · exact hlast hm
    · exact hlast hm

/-- Where a directory cannot be made, there is none afterwards. -/
theorem not_followed_of_makePath {e : FileError} (hnul : '\x00' ∉ directory.toList)
    (hm : t.makePath directory = (.error e, t')) : ¬∃ loc, t'.followed directory = .ok loc := by
  rintro ⟨loc, hf⟩
  rw [makePath, if_neg (by simpa using hnul)] at hm
  obtain ⟨cut, hcut, hdirectory⟩ := exists_not_isDirectory_of_makeAll hm
  suffices hcutFollowed : ∃ loc, t'.followed cut = .ok loc by
    obtain ⟨hempty, hcutNul⟩ := nul_not_mem_cuts hnul cut hcut
    rw [(isDirectory_iff_followed hcutNul hempty).mpr hcutFollowed] at hdirectory
    cases hdirectory
  obtain ⟨hnil, -⟩ | ⟨path, shorter, hcuts, habsolute, hkept⟩ := cuts_nil_or directory
  · rw [hnil] at hcut
    cases hcut
  · rw [← followed_congr habsolute hkept] at hf
    have hpairwise := pairwise_cuts directory
    rw [hcuts] at hcut hpairwise
    obtain rfl | hcut := List.mem_cons.mp hcut
    · exact ⟨loc, hf⟩
    · obtain ⟨habsolute', more, -, hkept'⟩ := List.rel_of_pairwise_cons hpairwise hcut
      rw [followed, hkept', habsolute'] at hf
      exact exists_descend_of_append hf

/-- Where a directory cannot be made, no file of it can be found afterwards. -/
theorem locate_join_of_makePath {e : FileError} (hm : t.makePath directory = (.error e, t'))
    (hname : IsName name) (hdot : name ≠ ".") (place : Place) :
    t'.locate (FilePath.join directory name) ≠ .ok place := by
  intro hl
  have hnul : '\x00' ∉ directory.toList := fun hmem =>
    (locate_eq_ok_iff.mp hl).1 (mem_join hmem (isAbsolute_of_isName hname))
  exact not_followed_of_makePath hnul hm (followed_of_extends hl (extends_join directory hname hdot))

theorem makeAll_of_makeDirectory_error {e : FileError} {result : Except FileError Unit}
    (hmake : t.makeDirectory path = .error e) (hno : t.isDirectory path = false)
    (hshorter : t.makeAll paths = (result, t)) : ∃ e', t.makeAll (path :: paths) = (.error e', t) := by
  rw [makeAll, hmake, hshorter]
  cases e with
  | notFound =>
    cases result with
    | error e' => exact ⟨e', rfl⟩
    | ok => exact ⟨.notFound, by simp [hmake, hno]⟩
  | _ => exact ⟨_, by simp only [hno, if_neg Bool.false_ne_true]; rfl⟩

/-- Making directories a second time fails in the same place and makes nothing more. -/
theorem makeAll_again (hpairwise : paths.Pairwise Extends)
    (hpaths : ∀ path ∈ paths, path ≠ "" ∧ '\x00' ∉ path.toList) {e : FileError}
    (hm : t.makeAll paths = (.error e, t')) : ∃ e', t'.makeAll paths = (.error e', t') := by
  induction paths generalizing t' e with
  | nil => cases hm
  | cons path shorter ih =>
    obtain ⟨hlonger, hshorter⟩ := List.pairwise_cons.mp hpairwise
    obtain ⟨-, hrest⟩ := List.forall_mem_cons.mp hpaths
    have hsame := hm
    rw [makeAll] at hm
    split at hm
    · cases hm
    · split at hm
      · next e₁ t₁ hall =>
        -- One of the shorter cuts is no directory, so nothing can be made behind it.
        cases hm
        obtain ⟨e', hagain⟩ := ih hshorter hrest hall
        obtain ⟨cut, hcut, hdirectory⟩ := exists_not_isDirectory_of_makeAll hall
        cases hl : t'.locate path with
        | ok place =>
          have hf := followed_of_extends hl (hlonger cut hcut)
          obtain ⟨hempty, hnul⟩ := hrest cut hcut
          rw [(isDirectory_iff_followed hnul hempty).mpr hf] at hdirectory
          cases hdirectory
        | error e₂ =>
          have hmake : t'.makeDirectory path = .error e₂ := by
            rw [makeDirectory, hl]
            rfl
          refine makeAll_of_makeDirectory_error hmake ?_ hagain
          rw [isDirectory, find?, hl]
      · next t₁ hall =>
        have hstand : t₁.makeAll shorter = (.ok (), t₁) := by
          cases shorter with
          | nil => rfl
          | cons first others => exact makeAll_of_isDirectory (isDirectory_of_makeAll hall) others
        split at hm
        · cases hm
        · next e₂ hmake =>
          split at hm
          · cases hm
          · next hno =>
            cases hm
            exact makeAll_of_makeDirectory_error hmake (Bool.eq_false_iff.mpr hno) hstand
    · -- Nothing was made at all.
      split at hm
      · cases hm
      · cases hm
        exact ⟨e, hsame⟩

theorem makePath_again {e : FileError} (hm : t.makePath directory = (.error e, t')) :
    ∃ e', t'.makePath directory = (.error e', t') := by
  unfold makePath at hm ⊢
  split at hm
  · next hnul =>
    cases hm
    exact ⟨_, if_pos hnul⟩
  · next hnul =>
    rw [if_neg hnul]
    exact makeAll_again (pairwise_cuts directory) (nul_not_mem_cuts (by simpa using hnul)) hm

end

end FileTree

namespace ConfigStore

/-! ## 4. The files of a store -/

theorem utf8Len_le (s : List Char) : String.utf8Len s ≤ 4 * s.length := by
  induction s with
  | nil => exact Nat.le_refl _
  | cons c rest ih =>
    have hc := c.utf8Size_le_four
    rw [String.utf8Len, List.length_cons]
    omega

theorem holdable_fileName (id : UInt32) : FileTree.Holdable (fileName id) := by
  have hlength := length_fileName id
  have hne {s : String} (hs : s.toList.length ≤ 5) : fileName id ≠ s := by
    rintro rfl
    exact Nat.not_lt.mpr hs hlength
  refine ⟨⟨hne (by decide), not_mem_fileName id⟩, hne (by decide), hne (by decide), ?_, ?_⟩
  · rw [toList_fileName, List.mem_append]
    rintro (hc | hc)
    · exact absurd (Nat.isDigit_of_mem_toDigits (by decide) (by decide) hc) (by decide)
    · exact absurd hc (by decide)
  · have hdigits : (Nat.toDigits 10 id.toNat).length ≤ 10 :=
      (Nat.length_toDigits_le_iff (by decide) (by decide)).mpr (Nat.lt_trans id.toNat_lt (by decide))
    have hbytes := utf8Len_le (fileName id).toList
    rw [String.utf8Len_toList] at hbytes
    rw [toList_fileName, List.length_append, show ".json".toList.length = 5 from rfl] at hbytes
    unfold FileTree.nameFits
    exact decide_eq_true (by omega)

/-- While its directory cannot be made, a store has the defaults for everyone. -/
theorem load_of_makePath {but : List String → Prop} {directory : String} {t tree grown : FileTree}
    {e : FileError} (hm : tree.makePath directory = (.error e, grown)) (hk : FileTree.Keeps but t grown)
    (id : UInt32) : (ConfigStore.files directory).load t id = .ok .default := by
  have hnothing : t.holds (path directory id) = false := by
    unfold FileTree.holds FileTree.find?
    cases hl : t.locate (path directory id) with
    | error e => rfl
    | ok place =>
      have hname := holdable_fileName id
      exact absurd (FileTree.locate_of_keeps hk hl)
        (FileTree.locate_join_of_makePath hm hname.toIsName hname.dot place)
  unfold load
  dsimp only
  rw [hnothing]
  rfl

end ConfigStore

end ComputerHost

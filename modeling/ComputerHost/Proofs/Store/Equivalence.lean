import Mathlib.Data.String.Basic
import ComputerHost.Proofs.Store.Neighbours

/-!
# Files instead of memory

A store that keeps settings in the files of a directory answers what one that keeps them in memory answers,
if the directory can be made and there is nothing in it at first. Whoever else uses the file tree may do so
in between, as long as it makes no difference to the directory (`Beside`).

Results:
1. `FileTree.Vacant`, `FileTree.Beside`: what is asked of the directory and of others.
2. `ConfigStore.load_of_agrees`, `ConfigStore.Agrees.save`: one call.
3. `ConfigStore.abreast_of_session`, `ConfigStore.files_answer_as_memory`: any number of calls.
-/

namespace ComputerHost

/-! ## 1. What others do -/

namespace FileTree

section
variable {but : List String → Prop} {t t' made : FileTree} {directory path name : String}
  {loc : List String}

/-- There is nothing in the directory. -/
def Vacant (t : FileTree) (directory : String) : Prop :=
  ∀ loc name, t.followed directory = .ok loc → t.node? (loc ++ [name]) = none

/-- Something is done to a tree that makes no difference to the directory: it can be made as before, with
the same in it, and it is there if it was there. -/
structure Beside (directory : String) (t t' : FileTree) : Prop where
  made : ∀ made, t.makeDirectories directory = .ok made →
    ∃ made', t'.makeDirectories directory = .ok made' ∧ ∃ loc, made.followed directory = .ok loc ∧
      made'.followed directory = .ok loc ∧
      ∀ name, made'.node? (loc ++ [name]) = made.node? (loc ++ [name])
  stands : t.Stands directory → t'.Stands directory

end

end FileTree

namespace ConfigStore

/-! ## 2. One call -/

/-- The directory is there, and its files are what is in memory. -/
structure Mirrors (directory : String) (t : FileTree) (saved : List (UInt32 × ComputerConfig)) :
    Prop where
  stands : t.Stands directory
  files : ∃ loc, t.followed directory = .ok loc ∧ ∀ id, t.node? (loc ++ [fileName id]) =
    (saved.lookup id).map fun c => .file c.toText.toUTF8

/-- The directory, once it has been made, mirrors what is in memory. If there is anything in memory it has
been made. -/
structure Agrees (directory : String) (t : FileTree) (saved : List (UInt32 × ComputerConfig)) :
    Prop where
  mirrors : ∃ made, t.makeDirectories directory = .ok made ∧ Mirrors directory made saved
  stands : saved = [] ∨ t.Stands directory

section
variable {directory : String} {t t' made tree : FileTree} {saved : List (UInt32 × ComputerConfig)}
  {id : UInt32}

theorem free_of_makeDirectories (hm : t.makeDirectories directory = .ok made) :
    '\x00' ∉ directory.toList := by
  have hpath := FileTree.makeDirectories_eq_ok_iff.mp hm
  unfold FileTree.makePath at hpath
  split at hpath
  · cases hpath
  · next hnul => simpa using hnul

theorem locate_path (hm : t.makeDirectories directory = .ok made) {loc : List String}
    (hf : t'.followed directory = .ok loc) (id : UInt32) :
    t'.locate (path directory id) = .ok ⟨loc ++ [fileName id], false, true⟩ :=
  FileTree.locate_join hf (free_of_makeDirectories hm) (holdable_fileName id)

theorem stands_of_made (hm : t.makeDirectories directory = .ok made) : made.Stands directory :=
  FileTree.stands_of_makeDirectories hm (.refl (fun _ => True) made)

/-- What is in memory once settings have been saved. -/
theorem lookup_saved (saved : List (UInt32 × ComputerConfig)) (id : UInt32) (c : ComputerConfig)
    (other : UInt32) : ((id, c) :: saved.filter (·.1 != id)).lookup other =
      if other = id then some c else saved.lookup other := by
  rw [List.lookup_cons, lookup_filter_ne]
  by_cases hother : other = id
  · simp [hother]
  · rw [show (other == id) = false by simpa using hother, if_neg hother, if_neg hother]

/-- What is loaded is what is in memory. -/
theorem load_of_agrees (ha : Agrees directory t saved) (id : UInt32) :
    (ConfigStore.files directory).load t id = .ok ((saved.lookup id).getD .default) := by
  obtain ⟨made, hm, -, loc, hf, hfiles⟩ := ha.mirrors
  have hfile := hfiles id
  have hlocated := locate_path hm hf id
  cases hlookup : saved.lookup id with
  | some c =>
    obtain rfl | hstands := ha.stands
    · cases hlookup
    · cases hstands.symm.trans hm
      rw [hlookup] at hfile
      exact load_of_keeps ⟨_, hlocated, hfile⟩
  | none =>
    -- What the tree held there would be there once the directory has been made.
    have hnothing : t.holds (path directory id) = false := by
      rw [hlookup] at hfile
      have hk : FileTree.Keeps (fun _ => False) t made := FileTree.keeps_makeDirectories hm
      unfold FileTree.holds FileTree.find?
      cases hl : t.locate (path directory id) with
      | error e => rfl
      | ok place =>
        cases (FileTree.locate_of_keeps hk hl).symm.trans hlocated
        cases hn : t.node? (loc ++ [fileName id]) with
        | none => simp [hn]
        | some node =>
          cases node with
          | directory => exact absurd ((hk.directories _ hn).symm.trans hfile) (by simp)
          | file content => exact absurd ((hk.files _ _ not_false hn).symm.trans hfile) (by simp)
    unfold load
    dsimp only
    rw [hnothing]
    rfl

/-- What is saved is kept as it is in memory. -/
theorem Agrees.save (ha : Agrees directory t saved) (id : UInt32) (c : ComputerConfig) :
    ∃ t', (ConfigStore.files directory).save t id c = (.ok (), .files directory, t') ∧
      Agrees directory t' ((id, c) :: saved.filter (·.1 != id)) := by
  obtain ⟨made, hm, -, loc, hf, hfiles⟩ := ha.mirrors
  have hlocated := locate_path hm hf id
  have hfile := hfiles id
  have hn : made.node? (loc ++ [fileName id]) ≠ some .directory := by
    rw [hfile]
    cases saved.lookup id <;> simp
  let t' := made.put (loc ++ [fileName id]) (.file c.toText.toUTF8)
  have hwritten : made.writeText (path directory id) c.toText = .ok t' := by
    unfold FileTree.writeText FileTree.write
    rw [hlocated]
    cases hlookup : saved.lookup id with
    | none =>
      rw [hlookup] at hfile
      simp [bind, Except.bind, hfile, t', pure, Except.pure]
    | some old =>
      rw [hlookup] at hfile
      simp [bind, Except.bind, hfile, t', pure, Except.pure]
  have hk := FileTree.keeps_put_file hn (.file c.toText.toUTF8)
  have hstands : t'.Stands directory := FileTree.stands_of_makeDirectories hm hk
  refine ⟨t', ?_, ⟨t', hstands, hstands, loc, FileTree.followed_of_keeps hk hf, fun other => ?_⟩,
    .inr hstands⟩
  · unfold ConfigStore.save
    dsimp only
    rw [FileTree.makeDirectories_eq_ok_iff.mp hm]
    dsimp only
    rw [hwritten]
  · rw [FileTree.node?_put hn, hfiles other, lookup_saved]
    by_cases hother : other = id
    · subst hother
      simp
    · have hname : loc ++ [fileName other] ≠ loc ++ [fileName id] := by
        simpa using fun heq => hother (fileName_inj heq)
      rw [if_neg hname, if_neg hother]

theorem Agrees.beside (ha : Agrees directory t saved) (hb : FileTree.Beside directory t t') :
    Agrees directory t' saved := by
  obtain ⟨made, hm, -, loc, hf, hfiles⟩ := ha.mirrors
  obtain ⟨made', hm', loc', hf', hf'', hsame⟩ := hb.made made hm
  cases hf.symm.trans hf'
  exact ⟨⟨made', hm', stands_of_made hm', loc, hf'', fun id => (hsame _).trans (hfiles id)⟩,
    ha.stands.imp_right hb.stands⟩

theorem agrees_of_vacant (hm : tree.makeDirectories directory = .ok made)
    (hvacant : made.Vacant directory) : Agrees directory tree [] := by
  obtain ⟨loc, hf⟩ := FileTree.followed_of_makeDirectories hm
  exact ⟨⟨made, hm, stands_of_made hm, loc, hf, fun id => hvacant loc _ hf⟩, .inl rfl⟩

end

/-! ## 3. Any number of calls -/

inductive Call where
  | load (id : UInt32)
  | save (id : UInt32) (c : ComputerConfig)

inductive Answer where
  | loaded (result : Except ConfigError ComputerConfig)
  | saved (result : Except ConfigError Unit)

/-- A store is called: what it answers, and what it and the tree are like afterwards. -/
def Call.serve (store : ConfigStore) (tree : FileTree) : Call → Answer × ConfigStore × FileTree
  | .load id => (.loaded (store.load tree id), store, tree)
  | .save id c =>
    let (result, kept) := store.save tree id c
    (.saved result, kept)

/-- A store is called again and again. -/
def serveAll (store : ConfigStore) (tree : FileTree) : List Call → List Answer × ConfigStore × FileTree
  | [] => ([], store, tree)
  | call :: later =>
    let (answer, store, tree) := call.serve store tree
    let (answers, kept) := serveAll store tree later
    (answer :: answers, kept)

/-- A store has been called so often, with these answers, and other things have been done to the tree in
between. -/
inductive Session (beside : FileTree → FileTree → Prop) (start : ConfigStore × FileTree) :
    List (Call × Answer) → ConfigStore × FileTree → Prop
  | begins : Session beside start [] start
  | calls {past : List (Call × Answer)} {kept : ConfigStore × FileTree} : Session beside start past kept →
    ∀ call : Call, Session beside start (past ++ [(call, (call.serve kept.1 kept.2).1)])
      (call.serve kept.1 kept.2).2
  | beside {past : List (Call × Answer)} {store : ConfigStore} {t t' : FileTree} :
    Session beside start past (store, t) → beside t t' → Session beside start past (store, t')

/-- The settings of a computer that were saved last. -/
def lastSaved? (id : UInt32) (calls : List Call) : Option ComputerConfig :=
  calls.reverse.findSome? fun
    | .save id' c => if id' = id then some c else none
    | .load _ => none

/-- After these calls a store answers what was saved last, or the defaults, and can be saved to. -/
structure Remembers (calls : List Call) (kept : ConfigStore × FileTree) : Prop where
  last : ∀ id, kept.1.load kept.2 id = .ok ((lastSaved? id calls).getD .default)
  fresh : ∀ id, (∀ c, .save id c ∉ calls) → kept.1.load kept.2 id = .ok .default
  saves : ∀ id c, (kept.1.save kept.2 id c).1 = .ok ()
  saved : ∀ id c, (kept.1.save kept.2 id c).2.1.load (kept.1.save kept.2 id c).2.2 id = .ok c
  others : ∀ id c other, other ≠ id →
    (kept.1.save kept.2 id c).2.1.load (kept.1.save kept.2 id c).2.2 other = kept.1.load kept.2 other

section
variable {directory : String} {t t' made tree : FileTree} {saved : List (UInt32 × ComputerConfig)}
  {id : UInt32} {calls : List Call} {past : List (Call × Answer)} {kept : ConfigStore × FileTree}

theorem serveAll_concat (store : ConfigStore) (tree : FileTree) (calls : List Call) (call : Call) :
    store.serveAll tree (calls ++ [call]) =
      ((store.serveAll tree calls).1 ++
          [(call.serve (store.serveAll tree calls).2.1 (store.serveAll tree calls).2.2).1],
        (call.serve (store.serveAll tree calls).2.1 (store.serveAll tree calls).2.2).2) := by
  induction calls generalizing store tree with
  | nil => simp only [List.nil_append, serveAll]
  | cons first later ih => simp only [List.cons_append, serveAll, ih]

theorem lastSaved?_concat (id : UInt32) (calls : List Call) (call : Call) :
    lastSaved? id (calls ++ [call]) = (match call with
      | .save id' c => if id' = id then some c else none
      | .load _ => none).or (lastSaved? id calls) := by
  unfold lastSaved?
  rw [List.reverse_concat, List.findSome?_cons]
  cases call with
  | load => rfl
  | save id' c => split <;> simp_all

/-- The store in memory has answered the same calls in the same way, and the directory agrees with it. -/
structure Abreast (directory : String) (elsewhere : FileTree) (past : List (Call × Answer))
    (saved : List (UInt32 × ComputerConfig)) (kept : ConfigStore × FileTree) : Prop where
  store : kept.1 = .files directory
  agrees : Agrees directory kept.2 saved
  memory : (ConfigStore.memory []).serveAll elsewhere (past.map (·.1)) =
    (past.map (·.2), .memory saved, elsewhere)
  last : ∀ id, saved.lookup id = lastSaved? id (past.map (·.1))

theorem Abreast.call {elsewhere : FileTree} (ha : Abreast directory elsewhere past saved kept)
    (call : Call) : ∃ saved', Abreast directory elsewhere
      (past ++ [(call, (call.serve kept.1 kept.2).1)]) saved' (call.serve kept.1 kept.2).2 := by
  obtain ⟨store, t⟩ := kept
  obtain rfl : store = .files directory := ha.store
  cases call with
  | load id =>
    have hload : (ConfigStore.files directory).load t id =
        (ConfigStore.memory saved).load elsewhere id := load_of_agrees ha.agrees id
    refine ⟨saved, rfl, ha.agrees, ?_, fun other => ?_⟩
    · rw [List.map_append, List.map_append, List.map_singleton, List.map_singleton, serveAll_concat,
        ha.memory]
      simp only [Call.serve, hload]
    · rw [List.map_append, List.map_singleton, lastSaved?_concat, ha.last other]
      rfl
  | save id c =>
    obtain ⟨t', hsave, hagrees⟩ := ha.agrees.save id c
    have hserve : (Call.save id c).serve (.files directory) t =
        (.saved (.ok ()), .files directory, t') := by
      unfold Call.serve
      dsimp only at hsave ⊢
      rw [hsave]
    rw [hserve]
    refine ⟨(id, c) :: saved.filter (·.1 != id), rfl, hagrees, ?_, fun other => ?_⟩
    · rw [List.map_append, List.map_append, List.map_singleton, List.map_singleton, serveAll_concat,
        ha.memory]
      rfl
    · rw [List.map_append, List.map_singleton, lastSaved?_concat, lookup_saved, ha.last other]
      by_cases hid : other = id
      · simp [hid]
      · simp [hid, Ne.symm hid]

theorem abreast_of_session (elsewhere : FileTree) (hagrees : Agrees directory tree [])
    (hsession : Session (FileTree.Beside directory) (.files directory, tree) past kept) :
    ∃ saved, Abreast directory elsewhere past saved kept := by
  induction hsession with
  | begins => exact ⟨[], rfl, hagrees, rfl, fun _ => rfl⟩
  | calls _ call ih =>
    obtain ⟨saved, ha⟩ := ih
    exact ha.call call
  | beside _ hb ih =>
    obtain ⟨saved, ha⟩ := ih
    exact ⟨saved, ha.store, ha.agrees.beside hb, ha.memory, ha.last⟩

theorem lastSaved?_eq_none (hnever : ∀ c, .save id c ∉ calls) : lastSaved? id calls = none := by
  refine List.findSome?_eq_none_iff.mpr fun call hmem => ?_
  rw [List.mem_reverse] at hmem
  cases call with
  | load => rfl
  | save id' c =>
    refine if_neg ?_
    rintro rfl
    exact hnever c hmem

theorem remembers_of_agrees (ha : Agrees directory t saved)
    (hlast : ∀ id, saved.lookup id = lastSaved? id calls) : Remembers calls (.files directory, t) := by
  have hload (id : UInt32) : (ConfigStore.files directory).load t id =
      .ok ((lastSaved? id calls).getD .default) := by rw [load_of_agrees ha, hlast]
  have hsaved (id : UInt32) (c : ComputerConfig) :
      ((ConfigStore.files directory).save t id c).1 = .ok () ∧ ∀ other,
        ((ConfigStore.files directory).save t id c).2.1.load
          ((ConfigStore.files directory).save t id c).2.2 other =
        .ok ((if other = id then some c else saved.lookup other).getD .default) := by
    obtain ⟨t', hsave, hagrees⟩ := ha.save id c
    rw [hsave]
    refine ⟨rfl, fun other => ?_⟩
    rw [load_of_agrees hagrees, lookup_saved]
  refine ⟨hload, fun id hnever => ?_, fun id c => (hsaved id c).1, fun id c => ?_,
    fun id c other hother => ?_⟩
  · rw [hload, lastSaved?_eq_none hnever]
    rfl
  · rw [(hsaved id c).2, if_pos rfl]
    rfl
  · rw [(hsaved id c).2, if_neg hother]
    exact (load_of_agrees ha other).symm

/-- A directory that can be made, and that there is nothing in once it has been made, is as good as memory:
a store that keeps settings in its files answers every call as a store in memory does. -/
theorem files_answer_as_memory (hm : tree.makeDirectories directory = .ok made)
    (hvacant : made.Vacant directory)
    (hsession : Session (FileTree.Beside directory) (.files directory, tree) past kept) :
    (∀ elsewhere, ((ConfigStore.memory []).serveAll elsewhere (past.map (·.1))).1 = past.map (·.2)) ∧
      Remembers (past.map (·.1)) kept := by
  have hagrees := agrees_of_vacant hm hvacant
  refine ⟨fun elsewhere => ?_, ?_⟩
  · obtain ⟨saved, ha⟩ := abreast_of_session elsewhere hagrees hsession
    rw [ha.memory]
  · obtain ⟨saved, ha⟩ := abreast_of_session tree hagrees hsession
    obtain ⟨store, t⟩ := kept
    obtain rfl : store = .files directory := ha.store
    exact remembers_of_agrees ha.agrees ha.last

/-- A directory that is absent at first, and settings with an empty label. -/
theorem files_answer_as_memory_absent :
    ∃ made past kept, FileTree.empty.makeDirectories "config" = .ok made ∧ made.Vacant "config" ∧
      Session (FileTree.Beside "config") (.files "config", FileTree.empty) past kept ∧
      past.map (·.1) = [.load 7, .save 7 ⟨some "", false, true⟩] ∧
      (∀ elsewhere,
        ((ConfigStore.memory []).serveAll elsewhere (past.map (·.1))).1 = past.map (·.2)) ∧
      Remembers (past.map (·.1)) kept := by
  have hcuts : FileTree.cuts "config" = ["config"] := by decide +kernel
  have hl : FileTree.empty.locate "config" = .ok ⟨["config"], false, true⟩ := by decide +kernel
  have hm : FileTree.empty.makeDirectories "config" = .ok ⟨[(["config"], .directory)], []⟩ := by
    rw [FileTree.makeDirectories_eq_ok_iff, FileTree.makePath, if_neg (by decide), hcuts]
    simp only [FileTree.makeAll, FileTree.makeDirectory, hl, bind, Except.bind]
    rfl
  have hvacant : FileTree.Vacant ⟨[(["config"], .directory)], []⟩ "config" := by
    intro loc name hf
    obtain rfl : ["config"] = loc := Except.ok.inj hf
    simp [FileTree.node?, FileTree.lookup?]
  have hbegins : Session (FileTree.Beside "config") (.files "config", FileTree.empty) []
      (.files "config", FileTree.empty) := .begins
  have hsession := (hbegins.calls (.load 7)).calls (.save 7 ⟨some "", false, true⟩)
  obtain ⟨hanswers, hremembers⟩ := files_answer_as_memory hm hvacant hsession
  exact ⟨_, _, _, hm, hvacant, hsession, rfl, hanswers, hremembers⟩

end

end ConfigStore

end ComputerHost

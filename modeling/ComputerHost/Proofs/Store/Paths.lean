import Mathlib.Data.String.Basic
import ComputerHost.FileTree

/-!
# Pieces of paths

A path is followed piece by piece. What counts are the pieces that are neither empty nor a dot
(`FilePath.kept`) and whether the path is absolute; joining a name adds a piece, and the cuts of a path are
paths with fewer and fewer of its pieces.

Results:
1. `FilePath.isAbsolute_join`, `FilePath.kept_join`: joining a name.
2. `FileTree.cuts_nil_or`, `FileTree.pairwise_cuts`, `FileTree.nul_not_mem_cuts`: the cuts of a path.
-/

namespace ComputerHost

/-! ## 1. Joining -/

namespace FilePath

/-- A name of one component. -/
structure IsName (name : String) : Prop where
  nonempty : name ≠ ""
  slash : ∀ c ∈ name.toList, c ≠ '/'

section
variable {base name : String}

theorem isAbsolute_of_isName (hname : IsName name) : isAbsolute name = false := by
  unfold isAbsolute
  cases hs : name.toList with
  | nil => rfl
  | cons c rest => simpa using hname.slash c (by rw [hs]; exact List.mem_cons_self)

theorem isAbsolute_join (base : String) (hname : IsName name) :
    isAbsolute (join base name) = isAbsolute base := by
  have hrelative := isAbsolute_of_isName hname
  unfold join
  rw [hrelative, if_neg Bool.false_ne_true]
  by_cases hempty : base = ""
  · subst hempty
    rw [if_pos (.inl rfl), String.empty_append, hrelative]
    rfl
  · have hhead (s : String) : isAbsolute (base ++ s) = isAbsolute base := by
      have hne : base.toList ≠ [] := by simpa using hempty
      unfold isAbsolute
      rw [String.toList_append, List.head?_append_of_ne_nil _ hne]
    split
    · exact hhead name
    · rw [String.append_assoc]
      exact hhead _

theorem mem_join {c : Char} (hc : c ∈ base.toList) (hrelative : isAbsolute name = false) :
    c ∈ (join base name).toList := by
  unfold join
  rw [hrelative, if_neg Bool.false_ne_true]
  split <;> simp [hc]

/-- The pieces that count. -/
def kept (path : String) : List String := (FileTree.pieces path).1

theorem kept_append (s t : List Char) :
    kept (String.ofList (s ++ '/' :: t)) = kept (String.ofList s) ++ kept (String.ofList t) := by
  unfold kept FileTree.pieces Text.piecesOf
  simp only [String.toList_ofList]
  rw [Text.splitAt_append rfl, List.map_append, List.filter_append]

theorem kept_of_isName (hname : IsName name) :
    kept name = [name].filter fun piece => piece != "" && piece != "." := by
  unfold kept FileTree.pieces Text.piecesOf
  rw [Text.splitAt_of_free fun c hc => by simpa using hname.slash c hc]
  simp

/-- A name that is joined to a path is one more piece of it, unless it is a dot. -/
theorem kept_join (base : String) (hname : IsName name) : kept (join base name) =
    kept base ++ [name].filter fun piece => piece != "" && piece != "." := by
  rw [← kept_of_isName hname]
  have hlist (s : String) : s = String.ofList s.toList := s.ofList_toList.symm
  unfold join
  rw [isAbsolute_of_isName hname, if_neg Bool.false_ne_true]
  split
  · next hends =>
    obtain rfl | hslash := hends
    · rw [String.empty_append]
      rfl
    · obtain ⟨s, hs⟩ := List.getLast?_eq_some_iff.mp hslash
      have hbase : kept base = kept (String.ofList s) := by
        rw [hlist base, hs, kept_append]
        exact List.append_nil _
      rw [hbase, ← String.ofList_toList (s := name), ← kept_append, String.ofList_toList]
      congr 1
      rw [hlist base, hs]
      simp [String.append_assoc]
  · conv_rhs => rw [hlist base, hlist name, ← kept_append]
    congr 1
    simp [String.append_assoc]

end

end FilePath

/-! ## 2. Cutting -/

namespace FileTree

open FilePath

section
variable {path shorter name : String}

theorem headD_foldl_join (names : List String) (root : String) (done : List String) :
    (names.foldl (fun done name => FilePath.join (done.headD root) name :: done) done).headD root =
      names.foldl FilePath.join (done.headD root) := by
  induction names generalizing done with
  | nil => rfl
  | cons name rest ih => exact ih _

theorem foldl_join {names : List String} (hnames : ∀ name ∈ names, IsName name) (base : String) :
    isAbsolute (names.foldl FilePath.join base) = isAbsolute base ∧
      kept (names.foldl FilePath.join base) =
        kept base ++ names.filter fun piece => piece != "" && piece != "." := by
  induction names generalizing base with
  | nil => simp
  | cons name rest ih =>
    obtain ⟨hname, hrest⟩ := List.forall_mem_cons.mp hnames
    obtain ⟨habsolute, hkept⟩ := ih hrest (FilePath.join base name)
    refine ⟨habsolute.trans (isAbsolute_join base hname), ?_⟩
    rw [List.foldl_cons, hkept, kept_join base hname, List.append_assoc, ← List.filter_append]
    rfl

theorem isName_of_mem_components (hname : name ∈ components path) : IsName name := by
  have hpiece : name ∈ Text.piecesOf (· == '/') path → ∀ c ∈ name.toList, c ≠ '/' := by
    intro hmem c hc
    obtain ⟨piece, hpiece, rfl⟩ := List.mem_map.mp hmem
    rw [String.toList_ofList] at hc
    simpa using Text.splitAt_free hpiece c hc
  unfold components at hname
  dsimp only at hname
  have hkept {name : String} (hmem : name ∈ (Text.piecesOf (· == '/') path).filter
      fun piece => piece != "" && piece != ".") : name ≠ "" ∧ name ∈ Text.piecesOf (· == '/') path := by
    obtain ⟨hmem, hkeep⟩ := List.mem_filter.mp hmem
    exact ⟨by simp at hkeep; exact hkeep.1, hmem⟩
  split at hname
  · obtain rfl | hmem := List.mem_cons.mp hname
    · refine ⟨by decide, ?_⟩
      rintro c hc rfl
      exact absurd hc (by decide)
    · exact ⟨(hkept hmem).1, hpiece (hkept hmem).2⟩
  · exact ⟨(hkept hname).1, hpiece (hkept hname).2⟩

theorem filter_components (path : String) :
    ((components path).filter fun piece => piece != "" && piece != ".") = kept path := by
  unfold components kept pieces
  dsimp only
  split
  · rw [List.filter_cons_of_neg (by decide), List.filter_filter]
    simp
  · rw [List.filter_filter]
    simp

/-- The longest cut of a path has its pieces. -/
theorem cuts_nil_or (directory : String) : (cuts directory = [] ∧ kept directory = []) ∨
    ∃ path shorter, cuts directory = path :: shorter ∧ isAbsolute path = isAbsolute directory ∧
      kept path = kept directory := by
  let root := if isAbsolute directory then "/" else ""
  obtain ⟨habsolute, hkept⟩ :=
    foldl_join (fun name (hname : name ∈ components directory) => isName_of_mem_components hname) root
  have hroot : isAbsolute root = isAbsolute directory ∧ kept root = [] := by
    dsimp only [root]
    split
    · next h => exact ⟨h.symm, rfl⟩
    · next h => exact ⟨(Bool.eq_false_iff.mpr h).symm, rfl⟩
  rw [hroot.1] at habsolute
  rw [hroot.2, List.nil_append, filter_components] at hkept
  have hhead : (cuts directory).headD root = (components directory).foldl FilePath.join root :=
    headD_foldl_join (components directory) root []
  cases hcuts : cuts directory with
  | nil =>
    rw [hcuts, List.headD_nil] at hhead
    exact .inl ⟨rfl, by rw [← hkept, ← hhead, hroot.2]⟩
  | cons path shorter =>
    rw [hcuts, List.headD_cons] at hhead
    exact .inr ⟨path, shorter, rfl, by rw [hhead, habsolute], by rw [hhead, hkept]⟩

/-- One path is another one with more pieces behind it. -/
def Extends (path shorter : String) : Prop :=
  isAbsolute path = isAbsolute shorter ∧ ∃ more, more ≠ [] ∧ kept path = kept shorter ++ more

theorem Extends.trans {shortest : String} (he : Extends path shorter) (he' : Extends shorter shortest) :
    Extends path shortest := by
  obtain ⟨habsolute, more, hmore, hkept⟩ := he
  obtain ⟨habsolute', more', -, hkept'⟩ := he'
  refine ⟨habsolute.trans habsolute', more' ++ more, by simp [hmore], ?_⟩
  rw [hkept, hkept', List.append_assoc]

theorem extends_join (base : String) (hname : IsName name) (hdot : name ≠ ".") :
    Extends (FilePath.join base name) base := by
  refine ⟨isAbsolute_join base hname, [name], by simp, ?_⟩
  rw [kept_join base hname, List.filter_cons_of_pos (by simp [hname.nonempty, hdot])]
  rfl

/-- Only the first component can be a dot. -/
theorem ne_dot_of_mem_tail (hname : name ∈ (components path).tail) : name ≠ "." := by
  have hkept {names : List String}
      (hmem : name ∈ names.filter fun piece => piece != "" && piece != ".") : name ≠ "." := by
    have hkeep := (List.mem_filter.mp hmem).2
    simp at hkeep
    exact hkeep.2
  unfold components at hname
  dsimp only at hname
  split at hname
  · exact hkept hname
  · exact hkept (List.mem_of_mem_tail hname)

theorem pairwise_foldl_join {names : List String} (hnames : ∀ name ∈ names, IsName name ∧ name ≠ ".")
    (root : String) {done : List String} (hne : done ≠ []) (hdone : done.Pairwise Extends) :
    (names.foldl (fun done name => FilePath.join (done.headD root) name :: done) done).Pairwise
      Extends := by
  induction names generalizing done with
  | nil => exact hdone
  | cons name rest ih =>
    obtain ⟨⟨hname, hdot⟩, hrest⟩ := List.forall_mem_cons.mp hnames
    obtain ⟨last, before, rfl⟩ := List.exists_cons_of_ne_nil hne
    have hlast : Extends (FilePath.join last name) last := extends_join last hname hdot
    refine ih hrest (by simp) (List.pairwise_cons.mpr ⟨fun shorter hmem => ?_, hdone⟩)
    obtain rfl | hmem := List.mem_cons.mp hmem
    · exact hlast
    · exact hlast.trans (List.rel_of_pairwise_cons hdone hmem)

/-- Each of the cuts of a path extends the shorter ones. -/
theorem pairwise_cuts (path : String) : (cuts path).Pairwise Extends := by
  unfold cuts
  dsimp only
  cases hnames : components path with
  | nil => exact .nil
  | cons first rest =>
    rw [List.foldl_cons]
    refine pairwise_foldl_join (fun name hname => ⟨?_, ?_⟩) _ (List.cons_ne_nil _ _)
      (List.pairwise_singleton ..)
    · exact isName_of_mem_components (hnames ▸ List.mem_cons_of_mem first hname)
    · have htail : name ∈ (components path).tail := by rwa [hnames]
      exact ne_dot_of_mem_tail htail

/-- A character of a cut is one of the path, unless it is a slash. -/
theorem nul_not_mem_cuts (hnul : '\x00' ∉ path.toList) :
    ∀ cut ∈ cuts path, cut ≠ "" ∧ '\x00' ∉ cut.toList := by
  have hcomponent {name : String} (hname : name ∈ components path) : '\x00' ∉ name.toList := by
    intro hmem
    have hpiece : name = "." ∨ name ∈ Text.piecesOf (· == '/') path := by
      unfold components at hname
      dsimp only at hname
      split at hname
      · exact (List.mem_cons.mp hname).imp_right List.mem_of_mem_filter
      · exact .inr (List.mem_of_mem_filter hname)
    obtain rfl | hpiece := hpiece
    · exact absurd hmem (by decide)
    · obtain ⟨cut, hcut, rfl⟩ := List.mem_map.mp hpiece
      rw [String.toList_ofList] at hmem
      exact hnul (Text.mem_of_mem_splitAt hcut hmem)
  have hjoin {base name : String} (hbase : '\x00' ∉ base.toList) (hname : name ∈ components path) :
      FilePath.join base name ≠ "" ∧ '\x00' ∉ (FilePath.join base name).toList := by
    have hfree := hcomponent hname
    have hnonempty := (isName_of_mem_components hname).nonempty
    unfold FilePath.join
    split
    · exact ⟨hnonempty, hfree⟩
    · split
      · exact ⟨by simp [hnonempty], by simp [hbase, hfree]⟩
      · exact ⟨by simp, by simp [hbase, hfree]⟩
  have hfold (names : List String) (hnames : ∀ name ∈ names, name ∈ components path) (root : String)
      (hroot : '\x00' ∉ root.toList) (done : List String)
      (hdone : ∀ cut ∈ done, cut ≠ "" ∧ '\x00' ∉ cut.toList) :
      ∀ cut ∈ names.foldl (fun done name => FilePath.join (done.headD root) name :: done) done,
        cut ≠ "" ∧ '\x00' ∉ cut.toList := by
    induction names generalizing done with
    | nil => exact hdone
    | cons name rest ih =>
      obtain ⟨hname, hrest⟩ := List.forall_mem_cons.mp hnames
      refine ih hrest _ (List.forall_mem_cons.mpr ⟨hjoin ?_ hname, hdone⟩)
      cases done with
      | nil => exact hroot
      | cons last before => exact (hdone last List.mem_cons_self).2
  unfold cuts
  dsimp only
  refine hfold _ (fun _ hname => hname) _ ?_ [] nofun
  split <;> decide

end

end FileTree

end ComputerHost

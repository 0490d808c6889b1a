import ComputerHost.Proofs.Host.Ending
import ComputerHost.Proofs.Host.Ledger
import ComputerHost.Proofs.Host.Timers
import ComputerHost.Proofs.Store.Files

/-!
# What stays let go

Each move of a teardown lets go of one kind of thing. Nothing of that kind comes back: threads give
nothing to a computer in its teardown, and the rest is up to those who call it from outside. The lemmas here
say so for every change that gives nothing to the computer.

Results:
1. `Occurs.calm`: threads give nothing to a computer in its teardown.
2. `sidesOf_on`, `connectionsOf_on`, `timersOf_on`, …: what is empty stays empty.
3. `not_freed_on`, `noNewReferences_on`: the registry.
4. `store_keeps_on`: the store.
-/

namespace ComputerHost

/-- Somebody gives something to `who`, or changes its settings. -/
def Change.Gives (who : Handle) : Change → Prop
  | attach w _ _ | connect w _ | addFinalizer w _ | startTimer w _ | debounce w _ _ | setLabel w _ =>
    w = who
  | _ => False

namespace Host

section
variable {who w : Handle} {h h' h'' h₀ : Host} {stage stage' : Stage} {mover : Option Handle}
  {changes xs : List Change} {trace : List Occurrence} {x : Change}

/-! ## 1. Threads -/

/-- The thread of a computer gives something to it for its program only. -/
theorem gives_of_leads (hl : Leads w h stage xs stage') (hx : x ∈ xs) (hg : x.Gives who) :
    w = who ∧ stage.isClosing = false := by
  have hone {y : Change} (hm : x ∈ [y]) (hy : ¬y.Gives who) : w = who ∧ stage.isClosing = false :=
    absurd (List.mem_singleton.mp hm ▸ hg) hy
  cases hl with
  | runs hcontrol hasked hy =>
    refine ⟨?_, by cases hcontrol <;> rfl⟩
    rcases List.mem_append.mp hx with hx | hx
    · cases hasked x hx with
      | startTimer | setLabel => exact hg
      | _ => exact hg.elim
    · cases hy with
      | ends => cases List.mem_singleton.mp hx; exact hg.elim
      | _ => cases hx
  | panicked =>
    rcases List.mem_cons.mp hx with rfl | hx
    · exact hg.elim
    · exact hone hx id
  | begins | clears | takes | drops | givesUp | leaves | failed | windsUp | tearsDown =>
    exact hone hx id
  | _ => cases hx

/-- In a teardown it is calls from outside at most that give something to a computer. -/
theorem Occurs.calm (ho : Occurs who h mover changes h') (hs : h.stage? who = some stage)
    (hclosing : stage.isClosing = true) (hcalls : mover = none → ∀ x ∈ changes, ¬x.Gives who) :
    ∀ x ∈ changes, ¬x.Gives who := by
  cases ho with
  | own hm =>
    obtain ⟨stage₁, _, hs₁, hl, -⟩ := hm
    cases hs.symm.trans hs₁
    intro x hx hg
    exact absurd hclosing (Bool.eq_false_iff.mp (gives_of_leads hl hx hg).2)
  | other hne hm =>
    obtain ⟨_, _, -, hl, -⟩ := hm
    exact fun x hx hg => hne (gives_of_leads hl hx hg).1
  | called | quiet => exact hcalls rfl

/-! ## 2. What is empty -/

section
variable (hx : ¬x.Gives who)
include hx

theorem sidesOf_on (hempty : h.sidesOf who = []) : (x.on h).sidesOf who = [] := by
  have hattach (side name : String) : x ≠ .attach who side name := by
    rintro rfl
    exact hx rfl
  have hholds : Holds who h := ⟨by simp [hempty], by simp [hempty]⟩
  obtain ⟨-, gone, hperm, -⟩ := (releases_on hattach h).gone hholds
  unfold namesOf at hperm
  rw [hempty] at hperm
  exact List.map_eq_nil_iff.mp (List.append_eq_nil_iff.mp hperm.nil_eq.symm).2

theorem connectionsOf_on (hempty : h.connectionsOf who = []) : (x.on h).connectionsOf who = [] := by
  by_cases hclose : ∃ id, x = .disconnect who id
  · obtain ⟨id, rfl⟩ := hclose
    refine (congrArg Prod.fst (closeConnection_eq h who id).1).trans ?_
    rw [hempty]
    rfl
  · have hopen (name : String) : x ≠ .connect who name := by
      rintro rfl
      exact hx rfl
    exact ((sheds_connections_on hopen (not_exists.mp hclose) h).1.of_nil hempty).1

theorem finalizersOf_on (hempty : h.finalizersOf who = []) : (x.on h).finalizersOf who = [] := by
  have hadd (name : String) : x ≠ .addFinalizer who name := by
    rintro rfl
    exact hx rfl
  exact ((sheds_finalizers_on hadd h).of_nil hempty).1

theorem timersOf_on (hempty : h.timersOf who = []) : (x.on h).timersOf who = [] := by
  have hsame (ht : ¬x.Touches (.timers who)) : (x.on h).timersOf who = [] :=
    ((differs_on x h).agrees (.timers who) ht).trans hempty
  cases x with
  | startTimer w ms =>
    have hne : w ≠ who := hx
    exact hsame (by simp [Change.Touches, Ne.symm hne])
  | cancelTimer w id =>
    show (h.cancelTimer w id).2.timersOf who = []
    rw [timersOf_cancelTimer, hempty]
    split <;> rfl
  | fire =>
    refine List.eq_nil_iff_forall_not_mem.mpr fun id hid => ?_
    exact List.not_mem_nil (hempty ▸ mem_timersOf_fire hid)
  | teardown w step =>
    cases step with
    | takeTimers =>
      show (h.teardownStep w .takeTimers).timersOf who = []
      rw [timersOf_takeTimers, hempty]
      split <;> rfl
    | _ => exact hsame not_false
  | turnOn => exact hsame (by simp [Change.Touches, Aspect.OfSpawn])
  | attach | detach | spawn => exact hsame not_false
  | _ => exact hsame (by simp [Change.Touches, Aspect.OfResolution])

theorem debounceOf?_on (hempty : h.debounceOf? who = none) : (x.on h).debounceOf? who = none := by
  have hsame (ht : ¬x.Touches (.debounce who)) : (x.on h).debounceOf? who = none :=
    ((differs_on x h).agrees (.debounce who) ht).trans hempty
  cases x with
  | debounce w ms e =>
    have hne : w ≠ who := hx
    exact hsame (by simp [Change.Touches, Ne.symm hne])
  | fire =>
    refine Option.eq_none_iff_forall_ne_some.mpr fun id hid => ?_
    have hbefore := debounceOf?_fire hid
    rw [hempty] at hbefore
    cases hbefore
  | teardown w step =>
    cases step with
    | cancelDebounce =>
      refine (debounceOf?_cancelDebounce h w who).trans ?_
      split
      · rfl
      · exact hempty
    | _ => exact hsame not_false
  | turnOn => exact hsame (by simp [Change.Touches, Aspect.OfSpawn])
  | attach | detach | spawn => exact hsame not_false
  | _ => exact hsame (by simp [Change.Touches, Aspect.OfResolution])

end

/-- Only the finalizers of a computer change its settings when nobody gives it a label. -/
theorem config?_on (hx : ¬x.Gives who) (hrun : x ≠ .teardown who .runFinalizers)
    (hc : (h.computer? who).isSome = true) : (x.on h).config? who = h.config? who := by
  refine (differs_on x h).agrees (.config who) (fun ht => ?_) hc
  cases x with
  | setLabel w text =>
    cases ht
    exact hx rfl
  | turnOn => simp [Change.Touches, Aspect.OfSpawn] at ht
  | resolve | fire | attach | detach | spawn => exact ht
  | teardown w step =>
    cases step with
    | runFinalizers => exact hrun (by cases (show who = w from ht); rfl)
    | _ => exact ht
  | _ => simp [Change.Touches] at ht

/-! ## 3. The registry -/

theorem freed_spawn {id : UInt32} {isDebugger : Bool}
    (hm : who ∈ (h.spawn id isDebugger).2.registry.freed) : who ∈ h.registry.freed := by
  rcases hs : h.spawn id isDebugger with ⟨made, h₁⟩
  rw [hs] at hm
  cases made with
  | ok v =>
    obtain ⟨-, -, hreg, -⟩ := spawn_ok hs
    rw [hreg] at hm
    exact (Tombstones.mem_forget.mp hm).2
  | error e =>
    rw [← ((differs_of_spawn_error hs).agrees .registered nofun).2]
    exact hm

/-- Who is not being torn down is not, until its own teardown begins. -/
theorem not_freed_on (hx : x ≠ .teardown who .retire) (hn : who ∉ h.registry.freed) :
    who ∉ (x.on h).registry.freed := by
  have hsame (ht : ¬x.Touches .registered) : who ∉ (x.on h).registry.freed := by
    rw [((differs_on x h).agrees .registered ht).2]
    exact hn
  cases x with
  | spawn id isDebugger => exact fun hm => hn (freed_spawn hm)
  | turnOn link =>
    show who ∉ (h.turnOn link).registry.freed
    obtain heq | ⟨l, -, heq | ⟨v, -, heq⟩⟩ := turnOn_cases h link <;> rw [heq]
    · exact hn
    · exact fun hm => hn (freed_spawn hm)
    · rw [((differs_retarget _ link l v).agrees .registered (by simp)).2]
      exact fun hm => hn (freed_spawn hm)
  | teardown w step =>
    cases step with
    | retire =>
      show who ∉ h.registry.freed.add w
      rw [Tombstones.mem_add]
      rintro (rfl | hm)
      · exact hx rfl
      · exact hn hm
    | release =>
      show who ∉ (h.registry.freed.forget w).2
      rw [Tombstones.mem_forget]
      exact fun hm => hn hm.2
    | _ => exact hsame not_false
  | _ => exact hsame (by simp [Change.Touches, Aspect.OfWiring, Aspect.OfResolution, Aspect.OfFiring])

/-- There are no references to `who` but those that there were. -/
def NoNewReferences (who : Handle) (h h' : Host) : Prop :=
  h'.registry.referencesTo who ⊆ h.registry.referencesTo who

theorem noNewReferences_of_agrees (ha : Aspect.references.Agrees h h') :
    NoNewReferences who h h' := by
  have heq : h'.registry.references = h.registry.references := ha
  unfold NoNewReferences Registry.referencesTo
  rw [heq]
  exact fun _ hm => hm

theorem noNewReferences_foldl {α : Type} {f : Host → α → Host}
    (hf : ∀ h x, NoNewReferences who h (f h x)) (h : Host) (xs : List α) :
    NoNewReferences who h (xs.foldl f h) := by
  induction xs generalizing h with
  | nil => exact fun _ hm => hm
  | cons x xs ih => exact fun _ hm => hf h x (ih (f h x) hm)

theorem noNewReferences_attach {side name : String}
    (hlink : ∀ l, h.link? name = some l → l.target ≠ who) :
    NoNewReferences who h (h.attach w side name).2 := by
  rcases attach_cases h w side name with heq | ⟨-, -, -, heq⟩
  · rw [heq]
    exact fun _ hm => hm
  · rw [heq]
    intro ref hm
    change ref ∈ ((h.modify w _).tellAttached name w side).registry.referencesTo who at hm
    unfold tellAttached at hm
    split at hm
    · exact hm
    · next l hp =>
      dsimp only at hm
      split at hm
      · rcases (Registry.mem_addReference _ _ _ _ _).mp hm with hm | ⟨heq, -⟩
        · exact hm
        · exact absurd heq.symm (hlink l (link?_eq_some.mpr hp))
      · exact hm
    · exact hm

/-- A link that turns its target on stands for a new computer. -/
theorem noNewReferences_turnOn (hp : Present who h) (link : String) :
    NoNewReferences who h (h.turnOn link) := by
  have hspawn (l : Link) : NoNewReferences who h (h.spawn l.target.id false).2 :=
    noNewReferences_of_agrees ((differs_spawn h l.target.id false).agrees .references not_false)
  obtain heq | ⟨l, -, heq | ⟨v, hok, heq⟩⟩ := turnOn_cases h link <;> rw [heq]
  · exact fun _ hm => hm
  · exact hspawn l
  · have hnew : v ≠ who := by
      rintro rfl
      obtain ⟨hv, -⟩ := spawn_ok (Prod.ext hok rfl)
      have hlt := hp.rostered.drawn v hp.known
      rw [hv] at hlt
      exact Nat.lt_irrefl _ hlt
    rw [retarget_eq]
    intro ref hm
    refine hspawn l ?_
    dsimp only at hm
    split at hm
    · rcases (Registry.mem_addReference _ _ _ _ _).mp hm with hm | ⟨heq, -⟩
      · exact ((Registry.mem_removeReference _ _ _ _ _).mp hm).1
      · exact absurd heq.symm hnew
    · exact hm

theorem noNewReferences_detachReferences (h : Host) (w : Handle) :
    NoNewReferences who { h with registry := (h.registry.takeReferences w).2 }
      (h.detachReferences w) := by
  refine noNewReferences_foldl (fun h r => ?_) _ _
  have hself : NoNewReferences who h h := fun _ hm => hm
  split
  · unfold detachReference
    dsimp only
    split
    · exact fun _ hm => mem_referencesTo_detach hm
    · exact hself
  · exact hself

/-- A computer without references gets none, unless a link to it is attached. -/
theorem noNewReferences_on (hp : Present who h)
    (hlink : ∀ w side name, x = .attach w side name → ∀ l, h.link? name = some l → l.target ≠ who) :
    NoNewReferences who h (x.on h) := by
  have hsame (ht : ¬x.Touches .references) : NoNewReferences who h (x.on h) :=
    noNewReferences_of_agrees ((differs_on x h).agrees .references ht)
  cases x with
  | attach w side name => exact noNewReferences_attach (hlink w side name rfl)
  | detach w side => exact fun _ hm => mem_referencesTo_detach hm
  | turnOn link => exact noNewReferences_turnOn hp link
  | teardown w step =>
    cases step with
    | releasePeripherals =>
      obtain ⟨h₁, hd, -, -, heq⟩ := releasePeripherals_eq h w
      show NoNewReferences who h (h.releasePeripherals w)
      rw [heq]
      intro ref hm
      refine noNewReferences_of_agrees (hd.agrees .references Aspect.noConfusion) ?_
      exact noNewReferences_foldl (fun _ _ _ hm => mem_referencesTo_tellDetached hm) h₁ _ hm
    | detachReferences =>
      intro ref hm
      have htaken := noNewReferences_detachReferences h w hm
      change ref ∈ (h.registry.setReferences w []).referencesTo who at htaken
      rw [Registry.referencesTo_setReferences] at htaken
      split at htaken
      · cases htaken
      · exact htaken
    | _ => exact hsame not_false
  | resolve | fire | spawn => exact hsame not_false
  | _ => exact hsame (by simp [Change.Touches])

theorem referencesTo_detachReferences (h : Host) (who : Handle) :
    (h.detachReferences who).registry.referencesTo who = [] := by
  refine List.eq_nil_iff_forall_not_mem.mpr fun ref hm => ?_
  have htaken := noNewReferences_detachReferences h who hm
  change ref ∈ (h.registry.setReferences who []).referencesTo who at htaken
  rw [Registry.referencesTo_setReferences, if_pos rfl] at htaken
  cases htaken

/-! ## 4. The store -/

/-- The store is the same, and no file has been touched. -/
def KeepsFiles (h h' : Host) : Prop :=
  h'.store = h.store ∧ FileTree.Keeps (fun _ => False) h.tree h'.tree

theorem KeepsFiles.trans (hk : KeepsFiles h h') (hk' : KeepsFiles h' h'') : KeepsFiles h h'' :=
  ⟨hk'.1.trans hk.1, hk.2.trans hk'.2⟩

theorem keepsFiles_of_differs {at₁ : Aspect → Prop} (hd : Differs at₁ h h') (ht : ¬at₁ .tree)
    (hs : ¬at₁ .store) : KeepsFiles h h' := by
  have htree : h'.tree = h.tree := hd.agrees .tree ht
  exact ⟨hd.agrees .store hs, htree ▸ .refl _ _⟩

theorem keepsFiles_of_quiet (hq : Quiet h h') : KeepsFiles h h' :=
  keepsFiles_of_differs hq not_false not_false

/-- A construction makes directories at most. -/
theorem keepsFiles_create (h : Host) (id : UInt32) (isDebugger : Bool) :
    KeepsFiles h (h.create id isDebugger).2 := by
  rcases hc : h.create id isDebugger with ⟨e | w, h'⟩
  · have ha := (aborts_of_create_error hc).1
    exact ⟨congrArg (·.store) ha.rest, ha.tree⟩
  · obtain ⟨-, terminal, mounts, config, tree, hdir, -, heq⟩ := made_of_create_ok hc
    rw [heq]
    exact ⟨rfl, FileTree.keeps_makeDirectories hdir⟩

theorem keepsFiles_spawn (h : Host) (id : UInt32) (isDebugger : Bool) :
    KeepsFiles h (h.spawn id isDebugger).2 := by
  have hcreate := keepsFiles_create h id isDebugger
  unfold spawn
  rcases hc : h.create id isDebugger with ⟨made, h₁⟩
  rw [hc] at hcreate
  cases made with
  | ok v => exact hcreate.trans (keepsFiles_of_differs (differs_start h₁ v) (by simp) (by simp))
  | error e =>
    refine hcreate.trans ?_
    unfold reportSpawnError
    exact keepsFiles_of_quiet (differs_ite (fun _ => .refl _ h₁) fun _ => quiet_showDialog ..)

theorem keepsFiles_turnOn (h : Host) (link : String) : KeepsFiles h (h.turnOn link) := by
  obtain heq | ⟨l, -, heq | ⟨v, -, heq⟩⟩ := turnOn_cases h link <;> rw [heq]
  · exact ⟨rfl, .refl _ _⟩
  · exact keepsFiles_spawn h l.target.id false
  · exact (keepsFiles_spawn h l.target.id false).trans
      (keepsFiles_of_differs (differs_retarget _ link l v) (by simp) (by simp))

/-- Settings are kept until others are saved for the same id. -/
theorem store_keeps_on {id : UInt32} {c : ComputerConfig} (hk : h.store.Keeps h.tree id c)
    (hx : ∀ w, w.id = id → x ≠ .teardown w .saveConfig) :
    (x.on h).store.Keeps (x.on h).tree id c := by
  have hfiles {h' : Host} (hf : KeepsFiles h h') : h'.store.Keeps h'.tree id c := by
    rw [hf.1]
    exact ConfigStore.keeps_of_tree hk hf.2
  have hsame (ht : ¬x.Touches .tree) (hs : ¬x.Touches .store) :
      (x.on h).store.Keeps (x.on h).tree id c :=
    hfiles (keepsFiles_of_differs (differs_on x h) ht hs)
  cases x with
  | spawn id' isDebugger => exact hfiles (keepsFiles_spawn h id' isDebugger)
  | turnOn link => exact hfiles (keepsFiles_turnOn h link)
  | teardown w step =>
    cases step with
    | saveConfig =>
      have hne : w.id ≠ id := fun heq => hx w heq rfl
      show (h.saveConfig w).store.Keeps (h.saveConfig w).tree id c
      unfold saveConfig
      cases h.computer? w with
      | none => exact hk
      | some d => exact ConfigStore.keeps_save_other hk hne
    | _ => exact hsame not_false not_false
  | resolve | fire | attach | detach => exact hsame not_false not_false
  | _ => exact hsame (by simp [Change.Touches]) (by simp [Change.Touches])

theorem store_keeps_saveConfig {c : ComputerConfig} (hc : h.config? who = some c)
    (hs : (h.store.save h.tree who.id c).1 = .ok ()) :
    (h.saveConfig who).store.Keeps (h.saveConfig who).tree who.id c := by
  obtain ⟨computer, hcomputer, rfl⟩ := Option.map_eq_some_iff.mp hc
  unfold saveConfig
  rw [hcomputer]
  exact ConfigStore.keeps_save hs

end

end Host

end ComputerHost

import Mathlib.Data.List.Nodup
import ComputerHost.Proofs.Host.Wired

/-!
# Links and teardown

A teardown lets go of what its computer has attached, and of the links that stand for its computer
elsewhere, which it finds by the references. `Operates` puts whole teardowns next to the other changes of
a host.

Results:
1. `wired_releasePeripherals`, `wired_detachReferences`: the two moves that let go of links.
2. `dismantled`, `wired_tearDown`: a whole teardown.
3. `references_exact`: in every state the references are the links that there are, and a teardown
   removes the links to its computer and no others.
-/

namespace ComputerHost

/-- What a teardown touches apart from peripherals. -/
def Aspect.OfDismantling (who : Handle) : Aspect → Prop
  | registered | tree | store | freedTimers | service => True
  | finalizers w | config w | custody w | timers w | taken w | debounce w | connections w => w = who
  | _ => False

namespace Host

/-- The target of what is attached at a side, if that is a link. -/
def targetAt? (h : Host) (who : Handle) (side : String) : Option Handle :=
  (((h.computer? who).bind (·.peripheral? side)).bind h.peripheral?).bind Peripheral.target?

/-- All moves of a teardown. -/
def tearDown (h : Host) (who : Handle) : Host :=
  teardownPlan.foldl (fun h step => h.teardownStep who step) h

/-- What is done to a host from one end to the other. -/
inductive Operation where
  | change (x : Change)
  | teardown (who : Handle)

def Operation.on : Operation → Host → Host
  | change x, h => x.on h
  | teardown who, h => h.tearDown who

/-- Peripherals are attached to registered computers, a link at one place at a time; a new link is not
attached; and a teardown is not left half done. -/
def Operation.Fits (h : Host) : Operation → Prop
  | change (.attach who side name) => who ∈ h.registry.registered ∧
      ((h.attach who side name).1 = true → ∀ l, h.link? name = some l → ∀ w s, (s, name) ∉ h.sidesOf w)
  | change (.supply _ p) => ∀ l, p = .link l → l.binding = none ∧ l.hasHost = true
  | change (.teardown _ _) => False
  | _ => True

/-- Operations one after the other, with quiet changes between them. -/
inductive Operates (h₀ : Host) : Host → Prop
  | refl : Operates h₀ h₀
  | operation {h : Host} (op : Operation) : Operates h₀ h → op.Fits h → Operates h₀ (op.on h)
  | quiet {h h' : Host} : Operates h₀ h → Quiet h h' → Operates h₀ h'

section
variable {lost : Handle → Prop} {h h' : Host} {who w target : Handle} {side name : String} {l : Link}

theorem targetAt?_eq (h : Host) (w : Handle) (side : String) :
    h.targetAt? w side = ((h.sidesOf w).lookup side).bind fun n => (h.link? n).map (·.target) := by
  unfold targetAt?
  rw [← lookup_sidesOf, Option.bind_assoc]
  congr 1
  funext n
  unfold link?
  cases h.peripheral? n with
  | none => rfl
  | some p => cases p <;> rfl

theorem targetAt?_eq_some (hw : WiredBut lost h) :
    h.targetAt? w side = some target ↔ h.Bound ⟨w, side⟩ target := by
  unfold targetAt?
  rw [← lookup_sidesOf]
  constructor
  · intro ht
    obtain ⟨p, hp, ht⟩ := Option.bind_eq_some_iff.mp ht
    obtain ⟨name, hn, hp⟩ := Option.bind_eq_some_iff.mp hp
    cases p with
    | device d => cases ht
    | link l =>
      have hl := link?_eq_some.mpr hp
      exact ⟨name, l, hl, (hw.placed name l hl w side).mpr (mem_of_lookup hn), Option.some.inj ht⟩
  · rintro ⟨name, l, hl, hplace, rfl⟩
    rw [lookup_of_mem (hw.sides w) ((hw.placed name l hl w side).mp hplace)]
    show (h.peripheral? name).bind _ = _
    rw [link?_eq_some.mp hl]
    rfl

/-! ## 1. Letting go of links -/

theorem tellDetached_foldl_link? (names : List String) (h : Host) (w : Handle) (n : String) :
    (names.foldl (fun h name => h.tellDetached name w) h).link? n =
      if n ∈ names then (h.link? n).map Link.unbound else h.link? n := by
  induction names generalizing h with
  | nil => simp
  | cons name rest ih =>
    rw [List.foldl_cons, ih, link?_tellDetached]
    by_cases hn : n = name
    · subst hn
      cases h.link? n <;> simp [Link.unbound]
    · simp [hn]

theorem tellDetached_foldl_peripheral? (names : List String) (h : Host) (w : Handle) {n : String}
    (hn : n ∉ names) :
    (names.foldl (fun h name => h.tellDetached name w) h).peripheral? n = h.peripheral? n := by
  induction names generalizing h with
  | nil => rfl
  | cons name rest ih =>
    obtain ⟨hne, hrest⟩ := not_or.mp (List.mem_cons.not.mp hn)
    rw [List.foldl_cons, ih _ hrest, peripheral?_tellDetached hne]

theorem tellDetached_foldl_isSome (names : List String) (h : Host) (w : Handle) (n : String) :
    ((names.foldl (fun h name => h.tellDetached name w) h).peripheral? n).isSome =
      (h.peripheral? n).isSome := by
  induction names generalizing h with
  | nil => rfl
  | cons name rest ih => rw [List.foldl_cons, ih, isSome_tellDetached]

theorem indexed_tellDetached_foldl (names : List String) (hi : Indexed lost h) (w : Handle) :
    Indexed lost (names.foldl (fun h name => h.tellDetached name w) h) := by
  induction names generalizing h with
  | nil => exact hi
  | cons name rest ih => exact ih (indexed_tellDetached hi name w)

/-- The peripherals of a computer are let go when there are none at its sides any more. -/
theorem releasePeripherals_eq (h : Host) (who : Handle) :
    ∃ h₁ : Host, Differs (· = .sides who) h h₁ ∧ (∀ name, h₁.peripheral? name = h.peripheral? name) ∧
      (∀ w, h₁.sidesOf w = if w = who then [] else h.sidesOf w) ∧
      h.releasePeripherals who =
        ((h.sidesOf who).map (·.2)).foldl (fun h name => h.tellDetached name who) h₁ := by
  refine ⟨(h.update who (fun c => (c.peripherals.map (·.2), { c with peripherals := [] })) []).2,
    ?_, fun name => ?_, fun w => ?_, ?_⟩
  · refine differs_update h who _ _ (fun _ => rfl) fun x hw hx c => ?_
    cases x with
    | sides v => exact absurd (by cases hw; rfl) hx
    | _ => trivial
  · unfold update
    split <;> rfl
  · unfold sidesOf
    rw [computer?_update h who _ _ (fun _ => rfl),
      reading_modify (fun c => { c with peripherals := [] }) (fun _ => rfl)]
    split
    · cases h.computer? who <;> rfl
    · rfl
  · unfold releasePeripherals
    dsimp only
    rw [update_fst]
    congr 1
    unfold sidesOf
    cases h.computer? who <;> rfl

theorem sidesOf_releasePeripherals (h : Host) (who w : Handle) :
    (h.releasePeripherals who).sidesOf w = if w = who then [] else h.sidesOf w := by
  obtain ⟨h₁, -, -, hleft, heq⟩ := releasePeripherals_eq h who
  rw [heq, ← hleft w]
  exact (differs_foldl (fun h name => differs_tellDetached h name who) h₁ _).agrees (.sides w)
    not_false

theorem link?_releasePeripherals (h : Host) (who : Handle) (n : String) :
    (h.releasePeripherals who).link? n =
      if n ∈ (h.sidesOf who).map (·.2) then (h.link? n).map Link.unbound else h.link? n := by
  obtain ⟨h₁, -, hperipheral, -, heq⟩ := releasePeripherals_eq h who
  rw [heq, tellDetached_foldl_link?]
  unfold link?
  rw [hperipheral]

theorem peripheral?_releasePeripherals {n : String} (hn : ∀ s, (s, n) ∉ h.sidesOf who) :
    (h.releasePeripherals who).peripheral? n = h.peripheral? n := by
  obtain ⟨h₁, -, hperipheral, -, heq⟩ := releasePeripherals_eq h who
  rw [heq, tellDetached_foldl_peripheral?, hperipheral]
  intro hm
  obtain ⟨⟨s, n'⟩, hentry, rfl⟩ := List.mem_map.mp hm
  exact hn s hentry

theorem isSome_releasePeripherals (h : Host) (who : Handle) (n : String) :
    ((h.releasePeripherals who).peripheral? n).isSome = (h.peripheral? n).isSome := by
  obtain ⟨h₁, -, hperipheral, -, heq⟩ := releasePeripherals_eq h who
  rw [heq, tellDetached_foldl_isSome, hperipheral]

theorem indexed_releasePeripherals (hi : Indexed lost h) (who : Handle) :
    Indexed lost (h.releasePeripherals who) := by
  obtain ⟨h₁, hempty, -, -, heq⟩ := releasePeripherals_eq h who
  rw [heq]
  exact indexed_tellDetached_foldl _
    (indexed_of_differs hi hempty Aspect.noConfusion Aspect.noConfusion) who

/-- What other computers have attached stands for the same as before. -/
theorem targetAt?_releasePeripherals (hne : w ≠ who) (side : String) :
    (h.releasePeripherals who).targetAt? w side = h.targetAt? w side := by
  rw [targetAt?_eq, targetAt?_eq, sidesOf_releasePeripherals, if_neg hne]
  congr 1
  funext n
  rw [link?_releasePeripherals]
  split
  · cases h.link? n <;> rfl
  · rfl

/-- When a computer has been taken out of the registry, and what it has attached is let go, the rest
agrees again. -/
theorem wired_releasePeripherals {at₁ : Aspect → Prop} (hw : WiredBut lost h) (hd : Differs at₁ h h')
    (who : Handle) (hsides : ∀ who, ¬at₁ (.sides who)) (hp : ¬at₁ .peripherals) (hrefs : ¬at₁ .references)
    (hr : Rostered h')
    (hreg : ∀ w ∈ h.registry.registered, w ≠ who → w ∈ h'.registry.registered) :
    WiredBut lost (h'.releasePeripherals who) := by
  have hsame (w : Handle) : h'.sidesOf w = h.sidesOf w := hd.agrees (.sides w) (hsides w)
  have hrelease := differs_releasePeripherals h' who
  have hleft (w : Handle) : (h'.releasePeripherals who).sidesOf w =
      if w = who then [] else h.sidesOf w := by
    rw [sidesOf_releasePeripherals, hsame]
  have hlink (n : String) : (h'.releasePeripherals who).link? n =
      if n ∈ (h.sidesOf who).map (·.2) then (h.link? n).map Link.unbound else h.link? n := by
    rw [link?_releasePeripherals, hsame, link?_of_agrees (hd.agrees .peripherals hp)]
  refine ⟨rostered_of_differs hr hrelease not_false not_false,
    indexed_releasePeripherals (indexed_of_differs hw.indexed hd hp hrefs) who, fun n m hm w s => ?_,
    fun w => ?_, fun w hno => ?_, fun w s n hm => ?_⟩
  -- The links at its sides are bound no more, and every other link is bound where it was.
  · rw [hlink] at hm
    rw [hleft]
    split at hm
    · next hn =>
      obtain ⟨⟨s', n'⟩, hentry, rfl⟩ := List.mem_map.mp hn
      obtain ⟨l, hl, rfl⟩ := Option.map_eq_some_iff.mp hm
      have hplace := (hw.placed _ l hl who s').mpr hentry
      refine iff_of_false (fun hn => by cases hn) fun hmem => ?_
      split at hmem
      · cases hmem
      · next hne =>
        have hplace' := (hw.placed _ l hl w s).mpr hmem
        rw [hplace] at hplace'
        cases hplace'
        exact hne rfl
    · next hn =>
      rw [hw.placed n m hm]
      split
      · next heq =>
        subst heq
        exact iff_of_false (fun hmem => hn (List.mem_map.mpr ⟨(s, n), hmem, rfl⟩)) List.not_mem_nil
      · rfl
  · rw [hleft]
    split
    · exact List.nodup_nil
    · exact hw.sides w
  · rw [hleft]
    split
    · rfl
    · next hne =>
      refine hw.live w fun hmem => hno ?_
      rw [(hrelease.agrees .registered not_false).1]
      exact hreg w hmem hne
  · rw [isSome_releasePeripherals, isSome_peripheral?_of_agrees (hd.agrees .peripherals hp)]
    rw [hleft] at hm
    split at hm
    · cases hm
    · exact hw.named w s n hm

/-- A reference goes with its link. -/
theorem mem_referencesTo_tellDetached {ref : Reference}
    (hm : ref ∈ (h.tellDetached name w).registry.referencesTo target) :
    ref ∈ h.registry.referencesTo target := by
  unfold tellDetached at hm
  split at hm
  · exact hm
  · dsimp only at hm
    split at hm
    · split at hm
      · exact ((Registry.mem_removeReference _ _ _ _ _).mp hm).1
      · exact hm
    · exact hm
  · exact hm

theorem mem_referencesTo_detach {ref : Reference}
    (hm : ref ∈ (h.detach who side).2.registry.referencesTo target) :
    ref ∈ h.registry.referencesTo target := by
  rcases detach_cases h who side with ⟨-, heq⟩ | ⟨name, -, heq⟩
  · rwa [heq] at hm
  · rw [heq] at hm
    exact mem_referencesTo_tellDetached (h := h.modify who _) hm

/-- What is left of the links to `target` when the references have been taken, and `refs` are still to be
followed. -/
structure Losing (target : Handle) (refs : List Reference) (h : Host) : Prop where
  wired : WiredBut (· = target) h
  taken : h.registry.referencesTo target = []
  nodup : refs.Nodup
  exact : ∀ ref, ref ∈ refs ↔ h.Bound ⟨ref.referencer, ref.side⟩ target

/-- When all references have been followed, nothing stands for the target any more. -/
theorem Losing.finished (hl : Losing target [] h) : Wired h := by
  obtain ⟨hw, htaken, -, hexact⟩ := hl
  refine ⟨hw.rostered, ⟨hw.indexed.hosted, hw.indexed.apart, fun who _ ref => ?_, hw.indexed.nodup,
    hw.indexed.tidy⟩, hw.placed, hw.sides, hw.live, hw.named⟩
  by_cases hwho : who = target
  · subst hwho
    rw [htaken]
    exact hexact ref
  · exact hw.indexed.exact who hwho ref

/-- What following the reference `⟨w, side⟩` does. -/
structure Follows (target : Handle) (ref : Reference) (name : String) (h h' : Host) : Prop where
  found : (ref.side, name) ∈ h.sidesOf ref.referencer
  sides : ∀ w, h'.sidesOf w = (h.sidesOf w).filter fun e => ⟨w, e.1⟩ ≠ ref
  queue : ∀ w, h'.queue w = h.queue w ++ if w = ref.referencer then [.detached ref.side] else []
  custody : ∀ w, h'.custodyOf w = h.custodyOf w ++ if w = ref.referencer then [.unlinked name] else []
  peripherals : ∀ n, n ≠ name → h'.peripheral? n = h.peripheral? n
  registry : h'.registry.registered = h.registry.registered ∧ h'.registry.freed = h.registry.freed

/-- What stands for a target after a peripheral was let go. -/
theorem bound_detach {place : Binding} (hw : WiredBut lost h)
    (hs : (h.sidesOf who).lookup side = some name) :
    (h.detach who side).2.Bound place target ↔ h.Bound place target ∧ place ≠ ⟨who, side⟩ := by
  have hlink := link?_detach hs
  constructor
  · rintro ⟨n, m, hm, hplace, ht⟩
    rw [hlink] at hm
    split at hm
    · obtain ⟨l, -, rfl⟩ := Option.map_eq_some_iff.mp hm
      cases hplace
    · next hn =>
      refine ⟨⟨n, m, hm, hplace, ht⟩, fun heq => hn ?_⟩
      have hat := lookup_of_mem (hw.sides who) ((hw.placed n m hm who side).mp (heq ▸ hplace))
      rw [hs] at hat
      exact (Option.some.inj hat).symm
  · rintro ⟨⟨n, m, hm, hplace, ht⟩, hne⟩
    refine ⟨n, m, ?_, hplace, ht⟩
    rw [hlink, if_neg fun hn => hne ?_]
    · exact hm
    · have hat := (hw.placed n m hm who side).mpr (hn ▸ mem_of_lookup hs)
      rw [hplace] at hat
      exact Option.some.inj hat

theorem Losing.follow {ref : Reference} {refs : List Reference} (hl : Losing target (ref :: refs) h) :
    ∃ name h', (if h.registry.resolves ref.referencer then
        h.detachReference ref.referencer ref.side target else h) = h' ∧
      Losing target refs h' ∧ Follows target ref name h h' := by
  obtain ⟨hw, htaken, hnodup, hexact⟩ := hl
  obtain ⟨owner, side⟩ := ref
  have hbound := (hexact ⟨owner, side⟩).mp List.mem_cons_self
  obtain ⟨name, l, hlink, hplace, ht⟩ := hbound
  have hat := (hw.placed name l hlink owner side).mp hplace
  have hs := lookup_of_mem (hw.sides owner) hat
  -- Whoever holds a link is registered, so the reference is followed.
  have hreg : owner ∈ h.registry.registered := by
    refine Decidable.byContradiction fun hno => ?_
    rw [hw.live owner hno] at hat
    cases hat
  have hresolves : h.registry.resolves owner = true := by
    simp [Registry.resolves, hreg, hw.rostered.live owner hreg]
  have hdetach : h.detachReference owner side target = (h.detach owner side).2 :=
    if_pos ((targetAt?_eq_some hw).mpr ⟨name, l, hlink, hplace, ht⟩)
  have hd := differs_detach h owner side
  obtain ⟨hfirst, hrest⟩ := List.nodup_cons.mp hnodup
  refine ⟨name, (h.detach owner side).2, (if_pos hresolves).trans hdetach,
    ⟨wired_detach hw owner side, ?_, hrest, fun ref => ?_⟩,
    ⟨hat, fun w => ?_, queue_detach hs, fun w => ?_, fun n hne => peripheral?_detach hs hne,
      hd.agrees .registered not_false⟩⟩
  · refine List.eq_nil_iff_forall_not_mem.mpr fun ref hm => ?_
    have hmem := mem_referencesTo_detach hm
    rw [htaken] at hmem
    cases hmem
  · rw [bound_detach hw hs, ← hexact, List.mem_cons]
    constructor
    · intro hm
      refine ⟨.inr hm, fun heq => hfirst ?_⟩
      cases ref
      cases heq
      exact hm
    · rintro ⟨rfl | hm, hne⟩
      · exact absurd rfl hne
      · exact hm
  · rw [sidesOf_detach]
    by_cases hwo : w = owner
    · subst hwo
      rw [if_pos rfl]
      exact List.filter_congr fun e _ => Bool.eq_iff_iff.mpr (by simp)
    · rw [if_neg hwo]
      exact (List.filter_eq_self.mpr fun e _ => by simp [hwo]).symm
  · rw [custodyOf_detach hs (link?_eq_some.mp hlink)]
    simp [Peripheral.detachDeed, eq_comm]

/-- Following all references: what is left at the sides, and what is said about what is gone. -/
theorem Losing.follow_all {refs : List Reference} (hl : Losing target refs h) :
    ∃ h', refs.foldl (fun h r => if h.registry.resolves r.referencer then
        h.detachReference r.referencer r.side target else h) h = h' ∧ Wired h' ∧
      (h'.registry.registered = h.registry.registered ∧ h'.registry.freed = h.registry.freed) ∧
      (∀ n, (∀ w s, (s, n) ∈ h.sidesOf w → ⟨w, s⟩ ∉ refs) → h'.peripheral? n = h.peripheral? n) ∧
      ∀ w, ∃ gone : List (String × String),
        gone.map (fun e => ⟨w, e.1⟩) = refs.filter (·.referencer = w) ∧ (∀ e ∈ gone, e ∈ h.sidesOf w) ∧
        h'.sidesOf w = (h.sidesOf w).filter (fun e => ⟨w, e.1⟩ ∉ refs) ∧
        h'.queue w = h.queue w ++ gone.map (fun e => .detached e.1) ∧
        h'.custodyOf w = h.custodyOf w ++ gone.map (fun e => .unlinked e.2) := by
  -- What the first reference takes goes in front of what the others take.
  induction refs generalizing h with
  | nil =>
    refine ⟨h, rfl, hl.finished, ⟨rfl, rfl⟩, fun _ _ => rfl, fun w => ⟨[], rfl, ?_, ?_, ?_, ?_⟩⟩
    · exact fun _ he => absurd he List.not_mem_nil
    · exact (List.filter_eq_self.mpr fun e _ => by simp).symm
    · exact (List.append_nil _).symm
    · exact (List.append_nil _).symm
  | cons ref refs ih =>
    obtain ⟨name, h₁, heq, hl₁, hf⟩ := hl.follow
    obtain ⟨h', heq', hw, hreg, hperipheral, hgone⟩ := ih hl₁
    refine ⟨h', by rw [List.foldl_cons, heq, heq'], hw,
      ⟨hreg.1.trans hf.registry.1, hreg.2.trans hf.registry.2⟩, fun n hn => ?_, fun w => ?_⟩
    · rw [hperipheral n fun w s hm hmem => ?_]
      · refine hf.peripherals n fun hname => hn ref.referencer ref.side ?_ List.mem_cons_self
        exact hname ▸ hf.found
      · rw [hf.sides w] at hm
        exact hn w s (List.mem_filter.mp hm).1 (List.mem_cons_of_mem _ hmem)
    · obtain ⟨gone, hrefs, hsub, hsides, hqueue, hcustody⟩ := hgone w
      have hsub' : ∀ e ∈ gone, e ∈ h.sidesOf w := fun e he => by
        have hm := hsub e he
        rw [hf.sides w] at hm
        exact (List.mem_filter.mp hm).1
      have hleft : h'.sidesOf w = (h.sidesOf w).filter (fun e => ⟨w, e.1⟩ ∉ ref :: refs) := by
        rw [hsides, hf.sides w, List.filter_filter]
        exact List.filter_congr fun e _ => by simp [Bool.and_comm]
      by_cases hwo : w = ref.referencer
      · refine ⟨(ref.side, name) :: gone, ?_, ?_, hleft, ?_, ?_⟩
        · rw [List.filter_cons_of_pos (by simp [hwo]), List.map_cons, hrefs, hwo]
        · intro e he
          rcases List.mem_cons.mp he with rfl | he
          · rw [hwo]
            exact hf.found
          · exact hsub' e he
        · rw [hqueue, hf.queue, if_pos hwo, List.append_assoc]
          rfl
        · rw [hcustody, hf.custody, if_pos hwo, List.append_assoc]
          rfl
      · refine ⟨gone, ?_, hsub', hleft, ?_, ?_⟩
        · rw [List.filter_cons_of_neg (by simpa [eq_comm] using hwo), hrefs]
        · rw [hqueue, hf.queue, if_neg hwo, List.append_nil]
        · rw [hcustody, hf.custody, if_neg hwo, List.append_nil]

/-- The links to a computer that has nothing attached are let go. -/
theorem wired_detachReferences (hw : Wired h) (target : Handle) :
    Wired (h.detachReferences target) ∧
      ((h.detachReferences target).registry.registered = h.registry.registered ∧
        (h.detachReferences target).registry.freed = h.registry.freed) ∧
      (∀ n, (∀ w s, (s, n) ∈ h.sidesOf w → h.targetAt? w s ≠ some target) →
        (h.detachReferences target).peripheral? n = h.peripheral? n) ∧
      ∀ w, ∃ gone : List (String × String),
        gone.Perm ((h.sidesOf w).filter fun e => h.targetAt? w e.1 = some target) ∧
        (h.detachReferences target).sidesOf w =
          (h.sidesOf w).filter (fun e => h.targetAt? w e.1 ≠ some target) ∧
        (h.detachReferences target).queue w = h.queue w ++ gone.map (fun e => .detached e.1) ∧
        (h.detachReferences target).custodyOf w =
          h.custodyOf w ++ gone.map (fun e => .unlinked e.2) := by
  have hmem (w : Handle) (s : String) :
      ⟨w, s⟩ ∈ h.registry.referencesTo target ↔ h.targetAt? w s = some target := by
    rw [targetAt?_eq_some hw]
    exact hw.indexed.exact target not_false ⟨w, s⟩
  have htake : Differs (· = .references) h
      { h with registry := (h.registry.takeReferences target).2 } :=
    differs_references h ⟨rfl, rfl, rfl⟩
  have hto (who : Handle) : (h.registry.takeReferences target).2.referencesTo who =
      if who = target then [] else h.registry.referencesTo who :=
    Registry.referencesTo_setReferences ..
  have hlosing : Losing target (h.registry.referencesTo target)
      { h with registry := (h.registry.takeReferences target).2 } := by
    refine ⟨⟨rostered_of_differs hw.rostered htake Aspect.noConfusion Aspect.noConfusion,
      ⟨hw.indexed.hosted, hw.indexed.apart, fun who hwho ref => ?_, fun who => ?_,
        Registry.tidy_setReferences hw.indexed.tidy _ _⟩, hw.placed, hw.sides, hw.live, hw.named⟩,
      (hto target).trans (if_pos rfl), hw.indexed.nodup target, hw.indexed.exact target not_false⟩
    · show ref ∈ (h.registry.takeReferences target).2.referencesTo who ↔ _
      rw [hto, if_neg hwho]
      exact hw.indexed.exact who not_false ref
    · show ((h.registry.takeReferences target).2.referencesTo who).Nodup
      rw [hto]
      split
      · exact List.nodup_nil
      · exact hw.indexed.nodup who
  obtain ⟨h', heq, hw', hreg, hperipheral, hgone⟩ := hlosing.follow_all
  have hfold : h.detachReferences target = h' := heq
  rw [hfold]
  refine ⟨hw', hreg, fun n hn => hperipheral n fun w s hm hr => hn w s hm ((hmem w s).mp hr),
    fun w => ?_⟩
  obtain ⟨gone, hrefs, hsub, hsides, hqueue, hcustody⟩ := hgone w
  refine ⟨gone, ?_, hsides.trans (List.filter_congr fun e _ => by simp [hmem]), hqueue, hcustody⟩
  -- Both lists have each entry once, and the same entries.
  have hnodup : gone.Nodup := List.Nodup.of_map _ (hrefs ▸ (hw.indexed.nodup target).filter _)
  refine (List.perm_ext_iff_of_nodup hnodup ((List.Nodup.of_map _ (hw.sides w)).filter _)).mpr
    fun e => ⟨fun he => ?_, fun he => ?_⟩
  · have hr : ⟨w, e.1⟩ ∈ gone.map (fun e => (⟨w, e.1⟩ : Reference)) := List.mem_map_of_mem he
    rw [hrefs] at hr
    exact List.mem_filter.mpr ⟨hsub e he, by simpa using (hmem w e.1).mp (List.mem_filter.mp hr).1⟩
  · obtain ⟨hside, ht⟩ := List.mem_filter.mp he
    have hr : ⟨w, e.1⟩ ∈ (h.registry.referencesTo target).filter (·.referencer = w) :=
      List.mem_filter.mpr ⟨(hmem w e.1).mpr (by simpa using ht), by simp⟩
    rw [← hrefs] at hr
    obtain ⟨e', he', heq⟩ := List.mem_map.mp hr
    have hside' := lookup_of_mem (hw.sides w) (hsub e' he')
    rw [(Reference.mk.inj heq).2, lookup_of_mem (hw.sides w) hside] at hside'
    have hsame : e = e' := Prod.ext (Reference.mk.inj heq).2.symm (Option.some.inj hside')
    exact hsame ▸ he'

/-! ## 2. Whole teardowns -/

theorem peripherals_foldl {α : Type} {f : Host → α → Host}
    (hf : ∀ h x, (f h x).peripherals = h.peripherals) (h : Host) (xs : List α) :
    (xs.foldl f h).peripherals = h.peripherals := by
  induction xs generalizing h with
  | nil => rfl
  | cons x xs ih => rw [List.foldl_cons, ih, hf]

theorem peripherals_teardownStep (h : Host) (who : Handle) {step : TeardownStep}
    (hrelease : step ≠ .releasePeripherals) (hdetach : step ≠ .detachReferences) :
    (h.teardownStep who step).peripherals = h.peripherals := by
  have hupdate {α : Type} (h : Host) (f : Computer → α × Computer) (other : α) :
      (h.update who f other).2.peripherals = h.peripherals :=
    congrArg (·.peripherals) (update_frame ..)
  cases step with
  | retire | release | takeTimers => rfl
  | runFinalizers =>
    exact (peripherals_foldl (f := fun h name => h.runFinalizer who name) (fun _ _ => rfl) _ _).trans
      (hupdate h (fun c => (c.finalizers, { c with finalizers := [] })) [])
  | releaseTerminal =>
    show (h.releaseTerminal who).peripherals = _
    obtain ⟨-, heq⟩ | ⟨n, t, -, ⟨-, heq⟩ | ⟨-, heq⟩⟩ := releaseTerminal_cases h who
    · rw [heq]
    · rw [heq]
    · rw [heq]
      rfl
  | saveConfig =>
    show (h.saveConfig who).peripherals = _
    unfold saveConfig
    split <;> rfl
  | releasePeripherals => exact absurd rfl hrelease
  | detachReferences => exact absurd rfl hdetach
  | invalidateTimers => exact hupdate h (fun c => (c.takenTimers, { c with takenTimers := [] })) []
  | cancelDebounce =>
    unfold teardownStep
    dsimp only
    split <;> exact hupdate h (fun c => (c.debounce, { c with debounce := none })) none
  | closeConnections =>
    exact (peripherals_foldl (f := fun h (c : Connection) => h.note who (.closed c.name))
      (fun _ _ => rfl) _ _).trans
      (hupdate h Computer.takeConnections [])

/-- The moves of a teardown that let go of no peripherals. -/
theorem differs_dismantling (h : Host) (who : Handle) {step : TeardownStep}
    (hrelease : step ≠ .releasePeripherals) (hdetach : step ≠ .detachReferences) :
    Differs (Aspect.OfDismantling who) h (h.teardownStep who step) := by
  refine (differs_teardownStep h who step).mono fun x hx => ?_
  cases step with
  | releasePeripherals => exact absurd rfl hrelease
  | detachReferences => exact absurd rfl hdetach
  | _ => cases x <;> trivial

/-- Moves of a teardown that let go of no peripherals, one after the other. -/
theorem dismantled (h : Host) (who : Handle) (hr : Rostered h) (steps : List TeardownStep)
    (hsteps : ∀ step ∈ steps, step ≠ .releasePeripherals ∧ step ≠ .detachReferences) :
    ∃ h₁, steps.foldl (fun h step => h.teardownStep who step) h = h₁ ∧
      Differs (Aspect.OfDismantling who) h h₁ ∧ Rostered h₁ ∧ h₁.peripherals = h.peripherals ∧
      ∀ w, (w ≠ who ∨ .retire ∉ steps) →
        (w ∈ h₁.registry.registered ↔ w ∈ h.registry.registered) := by
  induction steps generalizing h with
  | nil => exact ⟨h, rfl, .refl _ h, hr, rfl, fun _ _ => .rfl⟩
  | cons step rest ih =>
    obtain ⟨hrelease, hdetach⟩ := hsteps step List.mem_cons_self
    obtain ⟨h₁, heq, hd, hr₁, hp, hreg⟩ := ih (h.teardownStep who step)
      (rostered_teardownStep hr who step) fun s hs => hsteps s (List.mem_cons_of_mem _ hs)
    refine ⟨h₁, heq, (differs_dismantling h who hrelease hdetach).trans hd, hr₁,
      hp.trans (peripherals_teardownStep h who hrelease hdetach), fun w hw => ?_⟩
    refine (hreg w (hw.imp_right fun hno hm => hno (List.mem_cons_of_mem _ hm))).trans ?_
    have hstep := differs_teardownStep h who step
    cases step with
    | retire => exact List.mem_erase_of_ne (hw.resolve_right fun hno => hno List.mem_cons_self)
    | release => exact .rfl
    | _ => rw [(hstep.agrees .registered not_false).1]

/-- A teardown, as seen by the other computers: what stood for the computer that is torn down is let
go, once each, and everything else stays. -/
theorem wired_tearDown (hw : Wired h) (who : Handle) :
    Wired (h.tearDown who) ∧
      (∀ n, (∀ s, (s, n) ∉ h.sidesOf who) →
        (∀ w s, (s, n) ∈ h.sidesOf w → h.targetAt? w s ≠ some who) →
        (h.tearDown who).peripheral? n = h.peripheral? n) ∧
      ∀ w ≠ who,
        (∃ gone : List (String × String),
          gone.Perm ((h.sidesOf w).filter fun e => h.targetAt? w e.1 = some who) ∧
          (h.tearDown who).sidesOf w =
            (h.sidesOf w).filter (fun e => h.targetAt? w e.1 ≠ some who) ∧
          (h.tearDown who).queue w = h.queue w ++ gone.map (fun e => .detached e.1) ∧
          (h.tearDown who).custodyOf w = h.custodyOf w ++ gone.map (fun e => .unlinked e.2)) ∧
        ∀ x : Aspect, x.who? = some w → x ≠ .sides w → x ≠ .events w → x ≠ .custody w →
          x.Agrees h (h.tearDown who) := by
  -- The wiring changes only in two steps in the middle of the plan.
  obtain ⟨h₁, heq₁, hd₁, hr₁, hp₁, hreg₁⟩ := dismantled h who hw.rostered
    [.retire, .runFinalizers, .releaseTerminal, .saveConfig] (by decide)
  have hwired₂ := wired_releasePeripherals hw hd₁ who (fun _ => not_false) not_false not_false
    hr₁ fun w hm hne => (hreg₁ w (.inl hne)).mpr hm
  have hd₂ := differs_releasePeripherals h₁ who
  obtain ⟨hwired₃, hreg₃, hp₃, hgone⟩ := wired_detachReferences hwired₂ who
  have hd₃ := differs_detachReferences (h₁.releasePeripherals who) who
  obtain ⟨h₄, heq₄, hd₄, hr₄, hp₄, hreg₄⟩ := dismantled
    ((h₁.releasePeripherals who).detachReferences who) who hwired₃.rostered
    [.takeTimers, .invalidateTimers, .cancelDebounce, .closeConnections, .release] (by decide)
  have hplan : teardownPlan =
      ([.retire, .runFinalizers, .releaseTerminal, .saveConfig] : List TeardownStep) ++
      ([.releasePeripherals, .detachReferences] : List TeardownStep) ++
      ([.takeTimers, .invalidateTimers, .cancelDebounce, .closeConnections, .release] :
        List TeardownStep) := rfl
  have hall : h.tearDown who = h₄ := by
    unfold tearDown
    rw [hplan, List.foldl_append, List.foldl_append, heq₁]
    exact heq₄
  have hsides (w : Handle) : (h₁.releasePeripherals who).sidesOf w =
      if w = who then [] else h.sidesOf w := by
    rw [sidesOf_releasePeripherals]
    exact ite_congr rfl (fun _ => rfl) fun _ => hd₁.agrees (.sides w) not_false
  -- The links at the sides of others lead where they led, until the references are followed.
  have htarget {w : Handle} (hne : w ≠ who) (s : String) :
      (h₁.releasePeripherals who).targetAt? w s = h.targetAt? w s := by
    rw [targetAt?_releasePeripherals hne, targetAt?_eq, targetAt?_eq,
      show h₁.sidesOf w = h.sidesOf w from hd₁.agrees (.sides w) not_false]
    simp only [link?_of_agrees (hd₁.agrees .peripherals not_false)]
  have hbefore : Differs (fun x => x.OfDismantling who ∨ x.OfWiring who) h (h₁.releasePeripherals who) :=
    (hd₁.mono fun x => .inl).trans (hd₂.mono fun x => .inr)
  have hwhole : Differs (fun x => (x.OfDismantling who ∨ x.OfWiring who) ∨ x.OfAnyWiring) h h₄ :=
    ((hbefore.mono fun x => .inl).trans (hd₃.mono fun x => .inr)).trans
      (hd₄.mono fun x hx => .inl (.inl hx))
  rw [hall]
  refine ⟨wired_of_differs hwired₃ hd₄ hr₄ (fun _ => not_false) not_false not_false
    fun w hm => (hreg₄ w (.inr (by decide))).mpr hm, fun n hown hothers => ?_,
    fun w hne => ⟨?_, fun x hx hnotSides hnotEvents hnotCustody => ?_⟩⟩
  · have hsame {h h' : Host} (heq : h'.peripherals = h.peripherals) :
        h'.peripheral? n = h.peripheral? n := by
      unfold peripheral?
      rw [heq]
    rw [hsame hp₄, hp₃ n fun w s hm => ?_, peripheral?_releasePeripherals fun s hm => ?_, hsame hp₁]
    · have hsame : h₁.sidesOf who = h.sidesOf who := hd₁.agrees (.sides who) not_false
      exact hown s (hsame ▸ hm)
    · rw [hsides] at hm
      split at hm
      · cases hm
      · next hne =>
        rw [htarget hne]
        exact hothers w s hm
  · obtain ⟨gone, hperm, hleft, hqueue, hcustody⟩ := hgone w
    refine ⟨gone, ?_, ?_, ?_, ?_⟩
    · simpa only [hsides, if_neg hne, htarget hne] using hperm
    · rw [show h₄.sidesOf w = _ from hd₄.agrees (.sides w) not_false, hleft]
      simp only [hsides, if_neg hne, htarget hne]
    · rw [show h₄.queue w = _ from hd₄.agrees (.events w) not_false, hqueue]
      exact congrArg (· ++ _) (hbefore.agrees (.events w) (not_or.mpr ⟨not_false, hne⟩))
    · rw [show h₄.custodyOf w = _ from hd₄.agrees (.custody w) hne, hcustody]
      exact congrArg (· ++ _) (hbefore.agrees (.custody w) (not_or.mpr ⟨hne, hne⟩))
  · refine hwhole.agrees x fun hn => ?_
    cases x with
    | sides => exact hnotSides (by cases hx; rfl)
    | events => exact hnotEvents (by cases hx; rfl)
    | custody => exact hnotCustody (by cases hx; rfl)
    | runState =>
      rcases hn with (hn | hn) | hn <;> exact hn
    | config | timers | taken | debounce | connections | finalizers =>
      cases hx
      exact hn.elim (fun hn => hn.elim hne id) id
    | _ => cases hx

theorem wired_operation (hw : Wired h) {op : Operation} (hf : op.Fits h) : Wired (op.on h) := by
  cases op with
  | teardown who => exact (wired_tearDown hw who).1
  | change x =>
    refine wired_on hw ?_ ?_ ?_
    · rintro who side name rfl
      exact hf
    · rintro name p rfl
      exact hf
    · rintro who step rfl
      exact hf

theorem wired_of_operates {h₀ : Host} (ho : Operates h₀ h) (hw : Wired h₀) : Wired h := by
  induction ho with
  | refl => exact hw
  | operation _ _ hf ih => exact wired_operation ih hf
  | quiet _ hq ih =>
    exact wired_of_differs ih hq (rostered_of_differs ih.rostered hq not_false not_false)
      (fun _ => not_false) not_false not_false fun w hm => (hq.agrees .registered not_false).1.symm ▸ hm

/-! ## 3. The references -/

/-- In every state that a host can come to, the registry refers to what is at a side of a registered
computer exactly if that is a link to the target, and then once. A teardown takes from the other
computers the links to its computer: each is told once, and one event names its side. Nothing else of
them changes, nor any other peripheral. When no computer is left there are no references. -/
theorem references_exact (setup : HostSetup) (tree : FileTree) (store : ConfigStore)
    (ho : Operates (Host.new setup tree store) h) :
    (∀ owner ∈ h.registry.registered, ∀ side target,
      (⟨owner, side⟩ ∈ h.registry.referencesTo target ↔ h.targetAt? owner side = some target) ∧
      (h.registry.referencesTo target).count ⟨owner, side⟩ ≤ 1) ∧
    (∀ target,
      (∀ owner ∈ h.registry.registered, owner ≠ target →
        (∃ gone : List (String × String),
          gone.Perm ((h.sidesOf owner).filter fun e => h.targetAt? owner e.1 = some target) ∧
          (h.tearDown target).sidesOf owner =
            (h.sidesOf owner).filter (fun e => h.targetAt? owner e.1 ≠ some target) ∧
          (h.tearDown target).queue owner = h.queue owner ++ gone.map (fun e => .detached e.1) ∧
          (h.tearDown target).custodyOf owner =
            h.custodyOf owner ++ gone.map (fun e => .unlinked e.2)) ∧
        ∀ x : Aspect, x.who? = some owner → x ≠ .sides owner → x ≠ .events owner →
          x ≠ .custody owner → x.Agrees h (h.tearDown target)) ∧
      ∀ name, (∀ side, (side, name) ∉ h.sidesOf target) →
        (∀ owner side, (side, name) ∈ h.sidesOf owner → h.targetAt? owner side ≠ some target) →
        (h.tearDown target).peripheral? name = h.peripheral? name) ∧
    (h.registry.registered = [] → h.registry.references = []) := by
  have hw := wired_of_operates ho (wired_new setup tree store)
  have hmem (owner : Handle) (side : String) (target : Handle) :
      ⟨owner, side⟩ ∈ h.registry.referencesTo target ↔ h.targetAt? owner side = some target := by
    rw [targetAt?_eq_some hw]
    exact hw.indexed.exact target not_false ⟨owner, side⟩
  refine ⟨fun owner _ side target => ⟨hmem owner side target, ?_⟩, fun target => ?_, fun hnone => ?_⟩
  · exact List.nodup_iff_count.mp (hw.indexed.nodup target) _
  · obtain ⟨-, hperipherals, hothers⟩ := wired_tearDown hw target
    exact ⟨fun owner _ hne => hothers owner hne, hperipherals⟩
  · refine Registry.references_of_tidy hw.indexed.tidy fun target =>
      List.eq_nil_iff_forall_not_mem.mpr fun ref hm => ?_
    obtain ⟨name, l, hl, hplace, -⟩ := (hw.indexed.exact target not_false ref).mp hm
    have hat := (hw.placed name l hl _ _).mp hplace
    rw [hw.live ref.referencer (by rw [hnone]; exact List.not_mem_nil)] at hat
    cases hat

end

def owning : Handle := ⟨7, 1⟩

def linked : Handle := ⟨8, 2⟩

/-- There are computers 7 and 8, and a link to the latter. -/
def supplied : Host :=
  ((spawning.spawn 7 false).2.spawn 8 false).2.addPeripheral "cable" (.link ⟨linked, none, true⟩)

theorem operates_supplied : Operates spawning supplied := by
  have hfirst : Operates spawning (spawning.spawn 7 false).2 :=
    .operation (.change (.spawn 7 false)) .refl True.intro
  have hsecond := Operates.operation (.change (.spawn 8 false)) hfirst True.intro
  refine Operates.operation (.change (.supply "cable" (.link ⟨linked, none, true⟩))) hsecond ?_
  intro l heq
  cases heq
  exact ⟨rfl, rfl⟩

/-- The link is at the left side of computer 7. -/
def cabled : Host := (supplied.attach owning "left" "cable").2

theorem operates_cabled : Operates spawning cabled := by
  have hw := wired_of_operates operates_supplied (wired_new _ _ _)
  have hlink : supplied.link? "cable" = some ⟨linked, none, true⟩ := by decide +kernel
  refine Operates.operation (.change (.attach owning "left" "cable")) operates_supplied
    ⟨by decide +kernel, fun _ l hl w s hm => ?_⟩
  have hplace := (hw.placed "cable" l hl w s).mpr hm
  rw [hlink] at hl
  cases hl
  cases hplace

/-- The registry refers to the side of computer 7, and the teardown of computer 8 takes the link away. -/
theorem references_exact_cabled :
    ⟨owning, "left"⟩ ∈ cabled.registry.referencesTo linked ∧
      (cabled.tearDown linked).sidesOf owning = [] ∧
      (cabled.tearDown linked).queue owning = cabled.queue owning ++ [.detached "left"] := by
  obtain ⟨hexact, hteardown, -⟩ := references_exact _ _ _ operates_cabled
  have hreg : owning ∈ cabled.registry.registered := by decide +kernel
  obtain ⟨⟨gone, hperm, hsides, hqueue, -⟩, -⟩ := (hteardown linked).1 owning hreg (by decide)
  have htarget : ((cabled.sidesOf owning).filter fun e => cabled.targetAt? owning e.1 = some linked) =
      [("left", "cable")] := by decide +kernel
  refine ⟨(hexact owning hreg "left" linked).1.mpr (by decide +kernel), ?_, ?_⟩
  · rw [hsides]
    decide +kernel
  · rw [hqueue]
    rw [htarget] at hperm
    rw [List.perm_singleton.mp hperm]
    rfl

end Host

end ComputerHost

import ComputerHost.Host.Run

/-!
# Announcements

When something has gone wrong with a computer people see it on its terminal, or they are told about it in a
message. `Announces` says what that comes to, whatever has gone wrong and however it is worded. What holds of
all announcements is shown once, by cases of it.

Results:
1. `announces_reportBootFailure`, `programFailed_cases`: boots and programs that fail.
2. `programFinished_cases`: the end of a program, which under strict compatibility is shown as a failure.
3. `resetTerminal_cases`, `releaseTerminal_cases`: what becomes of a terminal.
-/

namespace ComputerHost.Host

/-- A failure is shown on the terminal of a computer, or people are told about it. -/
inductive Announces (who : Handle) (h : Host) : Host → Prop
  | shows {n : Nat} {t : Terminal} {message : String} : h.terminalOf? who = some (n, t) →
      h.config.standardsMode = true → Announces who h (h.showFatal who n message)
  /-- People hear of computers that cannot be constructed in another way. -/
  | tells {title message : String} : (title == "Failed to open computer") = false →
      h.config.standardsMode = false ∨ h.terminalOf? who = none →
      Announces who h (h.showDialog ((h.terminalOf? who).map (·.1)) title message)

section
variable {who : Handle} {h h' : Host}

/-! ## 1. Failures -/

theorem announces_of_terminalOf? (h : Host) (who : Handle) (fatal message : String) {title : String}
    (htitle : (title == "Failed to open computer") = false) :
    Announces who h (match h.terminalOf? who with
      | some (n, _) =>
        if h.config.standardsMode then h.showFatal who n fatal else h.showDialog (some n) title message
      | none => h.showDialog none title message) := by
  cases ht : h.terminalOf? who with
  | none =>
    have htells : Announces who h (h.showDialog ((h.terminalOf? who).map (·.1)) title message) :=
      .tells htitle (.inr ht)
    rwa [ht] at htells
  | some p =>
    obtain ⟨n, t⟩ := p
    dsimp only
    split
    · next hstandards => exact .shows ht hstandards
    · next hnot =>
      have htells : Announces who h (h.showDialog ((h.terminalOf? who).map (·.1)) title message) :=
        .tells htitle (.inl (Bool.eq_false_iff.mpr hnot))
      rwa [ht] at htells

theorem announces_reportScriptError (h : Host) (who : Handle) (e : ScriptError) :
    Announces who h (h.reportScriptError who e) :=
  announces_of_terminalOf? h who _ _ (by decide)

theorem announces_reportBootFailure (h : Host) (who : Handle) (e : BootError) :
    Announces who h (h.reportBootFailure who e) := by
  cases e with
  | biosMissing | biosLoad | state => exact announces_of_terminalOf? h who _ _ (by decide)

/-- An error is announced only if nothing was asked of the computer. -/
theorem programFailed_cases (h : Host) (who : Handle) (e : ScriptError) :
    h.isRunning who = false ∧ h.programFailed who e = h ∨
      h.isRunning who = true ∧
        Announces who (h.modify who Computer.shutdown) (h.programFailed who e) := by
  unfold programFailed
  cases hr : h.isRunning who with
  | false => exact .inl ⟨rfl, rfl⟩
  | true => exact .inr ⟨rfl, announces_reportScriptError ..⟩

theorem programFailed_of_asked {e : ScriptError} (hasked : h.isRunning who = false) :
    h.programFailed who e = h := by
  obtain ⟨-, heq⟩ | ⟨hr, -⟩ := programFailed_cases h who e
  · exact heq
  · cases hr.symm.trans hasked

theorem Announces.computers (ha : Announces who h h') : h'.computers = h.computers := by
  cases ha <;> rfl

/-! ## 2. Programs that finish -/

theorem programFinished_cases (h : Host) (who : Handle) :
    h.programFinished who = h.modify who Computer.finish ∨
      ∃ n t, h.config.standardsMode = true ∧
        (h.modify who Computer.finish).terminalOf? who = some (n, t) ∧
        h.programFinished who =
          (h.modify who Computer.finish).showFatal who n "Error running computer" := by
  unfold programFinished
  dsimp only
  split
  · next hstandards =>
    split
    · next n t ht =>
      split
      · exact .inl rfl
      · exact .inr ⟨n, t, hstandards, ht, rfl⟩
    · exact .inl rfl
  · exact .inl rfl

/-! ## 3. What becomes of a terminal -/

/-- A boot resets the terminal, if there is one. -/
theorem resetTerminal_cases (h : Host) (who : Handle) (session : Option Session) :
    h.terminalOf? who = none ∧ h.bootStep who session .resetTerminal = (.ok session, h) ∨
      ∃ n t, h.terminalOf? who = some (n, t) ∧ h.bootStep who session .resetTerminal =
        (.ok session, (h.onTerminal n Terminal.reset).note who .terminalReset) := by
  unfold bootStep
  cases ht : h.terminalOf? who with
  | none => exact .inl ⟨rfl, rfl⟩
  | some p =>
    obtain ⟨n, t⟩ := p
    exact .inr ⟨n, t, rfl, rfl⟩

/-- A terminal that shows a failure is kept, and any other is destroyed. -/
theorem releaseTerminal_cases (h : Host) (who : Handle) :
    h.terminalOf? who = none ∧ h.releaseTerminal who = h ∨
      ∃ n t, h.terminalOf? who = some (n, t) ∧
        (t.errorMode = true ∧ h.releaseTerminal who = { h with orphans := h.orphans ++ [n] } ∨
          t.errorMode = false ∧ h.releaseTerminal who =
            (h.onTerminal n Terminal.destroy).note who .terminalDestroyed) := by
  unfold releaseTerminal
  cases ht : h.terminalOf? who with
  | none => exact .inl ⟨rfl, rfl⟩
  | some p =>
    obtain ⟨n, t⟩ := p
    refine .inr ⟨n, t, rfl, ?_⟩
    cases hmode : t.errorMode with
    | true => exact .inl ⟨rfl, by simp [hmode]⟩
    | false => exact .inr ⟨rfl, by simp [hmode]⟩

end

end ComputerHost.Host

import Stepwise.Proofs.Machine.Script

/-!
# Warnings cover what is skipped

A diagnostic is logged when a run skips something. The rules look at all nodes of a script, so they have found what is
skipped before (`announces_skipped`), provided that nothing runs that is no part of the script (`script_invariant`). It
follows that every diagnostic was announced by a warning (`diagnostic_announced`).
-/

namespace Stepwise

open Eval

/-- A diagnostic that a warning about the script announced. -/
def Program.Announces (p : Program) (message : String) : Prop :=
  (∃ kind span, message = "Skipped unsupported " ++ kind ∧ CheckRule.unsupportedFinding kind span ∈ p.findings) ∨
    ∃ target : Expr, message = s!"Cannot update {target.render}: only variables can be incremented" ∧
      ∃ f ∈ p.findings, f.rule = "invalid-update-target"

/-- The rules warn of every node that a run skips. -/
theorem announces_skipped {p : Program} {message : String} (h : Skips p.Has message) : p.Announces message := by
  cases h with
  | @expr kind span hn =>
    obtain ⟨d, hd⟩ := hn
    exact .inl ⟨kind, span, rfl, mem_findings.2 ⟨.unsupported, by simp [CheckRule.all], _, hd, rfl⟩⟩
  | @stmt kind span hn =>
    obtain ⟨d, hd⟩ := hn
    exact .inl ⟨kind, span, rfl, mem_findings.2 ⟨.unsupported, by simp [CheckRule.all], _, hd, rfl⟩⟩
  | @update op before arg span hn ha =>
    obtain ⟨d, hd⟩ := hn
    have hf : CheckRule.updateTarget.find? ⟨.expr (.update op before arg span), d⟩ =
        some ⟨span, "Update target must be a variable name", .warning, "invalid-update-target"⟩ := by
      cases arg with
      | ident name s => exact absurd rfl (ha name s)
      | _ => rfl
    exact .inr ⟨arg, rfl, _, mem_findings.2 ⟨.updateTarget, by simp [CheckRule.all], _, hd, hf⟩, rfl⟩

namespace Machine

/-- **Warnings cover what is skipped.** Whatever commands a machine gets, each diagnostic that it logs is about a
construct that a warning named, or about an update while a warning tells of one that has no variable to update. -/
theorem diagnostic_announced {source : String} {document : Option Document} {scoping : Scoping} {m : Machine}
    (h : load source document scoping = .ok m) (hd : ∀ d ∈ document, d.lent = ∅) (commands : List Command) :
    (∀ entry ∈ (m.performAll commands).world.logs, entry.kind = .diagnostic →
      (∃ kind span, entry.message = "Skipped unsupported " ++ kind ∧
        CheckRule.unsupportedFinding kind span ∈ (m.performAll commands).warnings) ∨
      ∃ target : Expr, entry.message = s!"Cannot update {target.render}: only variables can be incremented" ∧
        ∃ f ∈ (m.performAll commands).warnings, f.rule = "invalid-update-target") ∧
    ((m.performAll commands).warnings = [] → ∀ entry ∈ (m.performAll commands).world.logs, entry.kind ≠ .diagnostic) := by
  obtain ⟨program, -, -, rfl⟩ := load_ok h
  have hlogs : Logs (fun _ => True) program fun entry => entry.kind = .diagnostic → program.Announces entry.message :=
    ⟨fun _ hk he => absurd he hk, fun _ hn _ => announces_skipped hn⟩
  have hrun := (script_invariant hlogs fun _ _ _ => trivial).performAll commands
    ⟨trivial, ofProgram_within program program.findings scoping hd⟩
  have hannounced := hrun.state.world.logs
  rw [performAll_warnings]
  refine ⟨hannounced, fun hw entry he hk => ?_⟩
  replace hw : program.findings = [] := hw
  rcases hannounced entry he hk with ⟨_, _, _, hf⟩ | ⟨_, _, _, hf, _⟩ <;> simp [hw] at hf

/-- A page with one button. -/
def buttonPage : Document := { Document.empty with elements := [⟨some "b", "button", [], ∅, ∅, []⟩] }

/-- A listener that updates what is no variable. -/
def skippingScript : String := "function f() { x.y++; }\ndocument.getElementById('b').addEventListener('click', f);"

/-- Firing the event makes the script log a diagnostic in the listener. -/
theorem diagnostic_announced_skippingScript : ∃ m, load skippingScript (some buttonPage) .chained = .ok m ∧
    (∃ entry ∈ (m.performAll [.step, .step, .fireById "b" "click", .step]).world.logs,
      entry.kind = .diagnostic) ∧
    ∀ entry ∈ (m.performAll [.step, .step, .fireById "b" "click", .step]).world.logs,
      entry.kind = .diagnostic →
      (∃ kind span, entry.message = "Skipped unsupported " ++ kind ∧ CheckRule.unsupportedFinding kind span ∈
        (m.performAll [.step, .step, .fireById "b" "click", .step]).warnings) ∨
      ∃ target : Expr, entry.message = s!"Cannot update {target.render}: only variables can be incremented" ∧
        ∃ f ∈ (m.performAll [.step, .step, .fireById "b" "click", .step]).warnings,
          f.rule = "invalid-update-target" := by
  have hrun : (load skippingScript (some buttonPage) .chained).toOption.any (fun m =>
      (m.performAll [.step, .step, .fireById "b" "click", .step]).world.logs.any (·.kind = .diagnostic)) =
        true := by decide +kernel
  obtain ⟨m, h, hd⟩ := exists_loaded hrun
  obtain ⟨entry, he, hk⟩ := List.any_eq_true.1 hd
  exact ⟨m, h, ⟨entry, he, by simpa using hk⟩, (diagnostic_announced h (fun d hd => by cases hd; rfl) _).1⟩

end Machine

end Stepwise

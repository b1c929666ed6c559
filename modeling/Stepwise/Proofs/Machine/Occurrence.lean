import Stepwise.Proofs.Machine.Diagnostics
import Stepwise.Proofs.Syntax.Lines

/-!
# Everything that runs comes from the script

The work in the queues and the functions that a machine holds belong to the script (`script_invariant`). So the units that
run stand on lines of its text (`Work.Occurs.line_le`), and the lines that the machine notes are such lines
(`Machine.work_occurs`).
-/

namespace Stepwise

theorem Work.Occurs.line_le {p : Program} {source : String} (h : Program.parse source = .ok p) {w : Work}
    (hw : w.Occurs p) (ht : w.transparent = false) : w.span.line ≤ lineCount source.toList := by
  have hnode {n : Node} (hn : p.Has n) (hne : ∀ body span, n ≠ .stmt (.block body span)) :
      n.span.line ≤ lineCount source.toList := by
    obtain ⟨d, hd⟩ := hn
    exact Program.line_le_lineCount h hd hne
  cases w with
  | stmt s =>
    refine hnode hw ?_
    rintro body span ⟨⟩
    cases ht
  | loopUpdate e =>
    obtain ⟨d, hd⟩ := hw.visits
    exact hnode (n := .expr e) ⟨d, hd (e.mem_visits_self d)⟩ nofun
  | loopCheck s =>
    obtain ⟨init, test, update, body, span, rfl, hs⟩ := hw
    cases test with
    | none => exact hnode hs nofun
    | some test =>
      obtain ⟨d, hd⟩ := hs.visits
      refine hnode (n := .expr test) ⟨d, hd ?_⟩ nofun
      simp [Node.visits, Stmt.visits, Expr.optionVisits, test.mem_visits_self d]

namespace Machine

/-- **Everything that runs comes from the script.** Whatever commands a machine gets, all work that is queued belongs to
the script, all functions that it holds are functions of the script, and the lines that it notes are lines of the text.
The page must not lend functions of its own. -/
theorem work_occurs {source : String} {document : Option Document} {scoping : Scoping} {m : Machine}
    (h : load source document scoping = .ok m) (hd : ∀ d ∈ document, d.lent = ∅) (commands : List Command) :
    ∃ p, Program.parse source = .ok p ∧
      (∀ w ∈ (m.performAll commands).queued, w.Occurs p) ∧
      (∀ fn, .func fn ∈ (m.performAll commands).held → p.HasFunction fn) ∧
      (∀ n ∈ (m.performAll commands).line, 1 ≤ n ∧ n ≤ lineCount source.toList) ∧
      ∀ entry ∈ (m.performAll commands).world.logs, ∀ n ∈ entry.line, 1 ≤ n ∧ n ≤ lineCount source.toList := by
  obtain ⟨p, hp, -, rfl⟩ := load_ok h
  let onText (line : Option Nat) : Prop := ∀ n ∈ line, 1 ≤ n ∧ n ≤ lineCount source.toList
  have hlogs : Logs onText p fun entry => onText entry.line := ⟨fun hl _ => hl, fun hl _ => hl⟩
  have hlines (w : Work) (hw : w.Occurs p) (ht : w.transparent = false) : onText (some w.span.line) := by
    rintro n ⟨⟩
    exact ⟨Nat.succ_pos _, hw.line_le hp ht⟩
  have hrun := (script_invariant hlogs hlines).performAll commands
    (m := ofProgram p p.findings scoping document) ⟨nofun, ofProgram_within p p.findings scoping hd⟩
  have hworld : World.FromScript (fun entry => onText entry.line) p _ := hrun.state.world
  refine ⟨p, hp, fun w hw => ?_, fun fn hfn => ?_, hrun.line, hworld.logs⟩
  · obtain ⟨f, hf, hw⟩ := List.mem_flatMap.1 hw
    exact (hrun.state.frame hf).queue w hw
  · rcases List.mem_append.1 hfn with hfn | hfn
    · exact hrun.state.held (fun _ hv => hv) _ hfn fn rfl
    · obtain ⟨l, hl, hfn⟩ := List.mem_flatMap.1 hfn
      rcases List.mem_cons.1 hfn with hfn | hfn
      · cases hfn
      · exact hworld.callbacks l hl _ hfn fn rfl

/-- A loop that registers a listener in each round. -/
def listeningScript : String :=
  "var b = document.getElementById('b');\nfunction f(x) \x7b\n  console.log(x);\n\x7d\n" ++
  "for (var i = 0; i < 2; i++) \x7b\n  b.addEventListener('click', f);\n\x7d\n"

/-- The button is clicked after the first round: the body of the function is queued beside the update clause and the test
of the loop. -/
theorem work_occurs_listeningScript : ∃ m p, load listeningScript (some buttonPage) .snapshot = .ok m ∧
    (∀ d ∈ some buttonPage, d.lent = ∅) ∧ Program.parse listeningScript = .ok p ∧
    (let n := m.performAll [.step, .step, .step, .step, .fireById "b" "click"]
    n.queued.map (·.span.line) = [5, 5, 2] ∧ n.world.listeners.length = 1 ∧
    n.world.logs.map (·.line) = [some 1, some 2, some 5, some 6, some 6] ∧
    (∀ w ∈ n.queued, w.Occurs p) ∧ (∀ fn, .func fn ∈ n.held → p.HasFunction fn) ∧
    (∀ k ∈ n.line, 1 ≤ k ∧ k ≤ lineCount listeningScript.toList) ∧
    ∀ entry ∈ n.world.logs, ∀ k ∈ entry.line, 1 ≤ k ∧ k ≤ lineCount listeningScript.toList) := by
  have hrun : (load listeningScript (some buttonPage) .snapshot).toOption.any (fun m =>
      let n := m.performAll [.step, .step, .step, .step, .fireById "b" "click"]
      decide (n.queued.map (·.span.line) = [5, 5, 2] ∧ n.world.listeners.length = 1 ∧
        n.world.logs.map (·.line) = [some 1, some 2, some 5, some 6, some 6])) = true := by decide +kernel
  obtain ⟨m, h, hm⟩ := exists_loaded hrun
  obtain ⟨hqueued, hlisteners, hlogs⟩ := of_decide_eq_true hm
  have hlent : ∀ d ∈ some buttonPage, d.lent = ∅ := by rintro d ⟨⟩; rfl
  obtain ⟨p, hp, hoccurs⟩ := work_occurs h hlent [.step, .step, .step, .step, .fireById "b" "click"]
  exact ⟨m, p, h, hlent, hp, hqueued, hlisteners, hlogs, hoccurs⟩

end Machine

end Stepwise

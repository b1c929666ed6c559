import Stepwise.Check.Finding
import Stepwise.Machine.Step
import Stepwise.Proofs.Check.Walk
import Stepwise.Proofs.Machine.Keeps

/-!
# Where work comes from

Every piece of work is made of nodes of the script. The next unit of a queue is made of nodes of the queue
(`takeUnit?_visits`), and a node that lies in the script brings all nodes under it (`Program.Has.visits`). Findings are
what the rules say about nodes (`mem_findings`).
-/

namespace Stepwise

/-! ## The next unit of a queue -/

mutual

theorem Stmt.firstUnit?_visits (d : Nat) {w : Work} {rest : List Work} : ∀ {s : Stmt}, s.firstUnit? = some (w, rest) →
    w.visits d ⊆ s.visits d ∧ ∀ w' ∈ rest, w'.visits d ⊆ s.visits d
  | .block body _, h => by
    have hb : Stmt.firstUnitOf? body = some (w, rest) := h
    have ⟨hw, hr⟩ := Stmt.firstUnitOf?_visits d hb
    exact ⟨List.subset_cons_of_subset _ hw, fun w' h' => List.subset_cons_of_subset _ (hr w' h')⟩
  | .empty _, h => by cases h
  | .declare _ _ _, h | .function _, h | .expr _ _, h | .ifElse _ _ _ _, h | .for _ _ _ _ _, h | .ret _ _, h
  | .unsupported _ _, h => by cases h; exact ⟨List.Subset.refl _, by simp⟩

theorem Stmt.firstUnitOf?_visits (d : Nat) {w : Work} {rest : List Work} : ∀ {body : List Stmt},
    Stmt.firstUnitOf? body = some (w, rest) →
    w.visits d ⊆ Stmt.listVisits d body ∧ ∀ w' ∈ rest, w'.visits d ⊆ Stmt.listVisits d body
  | s :: body, h => by
    rw [Stmt.firstUnitOf?] at h
    rw [Stmt.listVisits]
    cases hs : s.firstUnit? with
    | none =>
      rw [hs] at h
      have ⟨hw, hr⟩ := Stmt.firstUnitOf?_visits d h
      exact ⟨List.subset_append_of_subset_right _ hw, fun w' h' => List.subset_append_of_subset_right _ (hr w' h')⟩
    | some u =>
      obtain ⟨u, more⟩ := u
      rw [hs] at h
      cases h
      have ⟨hw, hr⟩ := Stmt.firstUnit?_visits d hs
      refine ⟨List.subset_append_of_subset_left _ hw, fun w' h' => ?_⟩
      rcases List.mem_append.1 h' with h' | h'
      · exact List.subset_append_of_subset_left _ (hr w' h')
      · obtain ⟨s', hs', rfl⟩ := List.mem_map.1 h'
        exact List.subset_append_of_subset_right _ (Stmt.visits_subset_list d hs')

end

/-- The next unit and the work after it have no nodes but those of the queue. -/
theorem takeUnit?_visits {d : Nat} {nodes : List Visit} {unit : Work} {rest : List Work} : ∀ {queue : List Work},
    takeUnit? queue = some (unit, rest) → (∀ w ∈ queue, w.visits d ⊆ nodes) →
    unit.visits d ⊆ nodes ∧ ∀ w ∈ rest, w.visits d ⊆ nodes
  | .loopUpdate _ :: _, h, hn | .loopCheck _ :: _, h, hn => by cases h; simpa using hn
  | .stmt s :: queue, h, hn => by
    obtain ⟨hs, hq⟩ := List.forall_mem_cons.1 hn
    rw [takeUnit?] at h
    cases hu : s.firstUnit? with
    | none => rw [hu] at h; exact takeUnit?_visits h hq
    | some u =>
      obtain ⟨u, more⟩ := u
      rw [hu] at h
      cases h
      have ⟨hw, hr⟩ := Stmt.firstUnit?_visits d hu
      exact ⟨List.Subset.trans hw hs, List.forall_mem_append.2 ⟨fun w' h' => List.Subset.trans (hr w' h') hs, hq⟩⟩

/-! ## Nodes under a node -/

/-- A script has a node. -/
def Program.Has (p : Program) (n : Node) : Prop := ∃ d, ⟨n, d⟩ ∈ p.visits

/-- The nodes under a node of a script are nodes of the script. -/
theorem Program.Has.visits {p : Program} {n : Node} (h : p.Has n) : ∃ d, n.visits d ⊆ p.visits := by
  obtain ⟨d, hd⟩ := h
  exact ⟨d, Node.visits_closed 0 (.stmt p.body) _ hd⟩

/-- The script has a function, as an expression or as a statement. -/
def Program.HasFunction (p : Program) (fn : FunctionDef) : Prop :=
  p.Has (.expr (.function fn)) ∨ p.Has (.stmt (.function fn))

/-- With a function the script has the nodes of its body. -/
theorem Program.HasFunction.body_visits {p : Program} {fn : FunctionDef} (h : p.HasFunction fn) :
    ∃ d, fn.body.visits d ⊆ p.visits := by
  obtain ⟨name, params, body, arrow, span⟩ := fn
  rcases h with h | h <;> obtain ⟨d, hd⟩ := h.visits
  · exact ⟨d + 1, List.Subset.trans (List.subset_cons_self _ _) hd⟩
  · exact ⟨d + 1, List.Subset.trans (List.subset_cons_self _ _) hd⟩

/-! ## Findings -/

theorem mem_findings {p : Program} {f : Finding} :
    f ∈ p.findings ↔ ∃ rule ∈ CheckRule.all, ∃ x ∈ p.visits, rule.find? x = some f := by
  simp [Program.findings, List.mem_mergeSort]

end Stepwise

import Stepwise.Proofs.Document.Changes
import Stepwise.Proofs.Machine.Held
import Stepwise.Proofs.Machine.Origin

/-!
# Runs stay within the script

A queue holds statements of the script, and update clauses and tests of its loops (`Work.Occurs`). Taking the next unit of
a queue keeps this (`takeUnit?_occurs`), and so does what running a unit leaves to do (`Work.run_occurs`). The functions
that a machine holds, be it in a scope, in a list or as a listener, are functions of the script. All of this is one
invariant of runs, together with any property of log entries that the notes of a run have (`script_invariant`).

The page may lend no values here: those come from outside of the script.
-/

namespace Stepwise

open Eval

/-! ## Work -/

/-- The work belongs to the script: a statement of it, or the update clause or the test of one of its loops. -/
def Work.Occurs (p : Program) : Work → Prop
  | stmt s => p.Has (.stmt s)
  | loopUpdate e => ∃ init test body span, p.Has (.stmt (.for init test (some e) body span))
  | loopCheck s => ∃ init test update body span, s = .for init test update body span ∧ p.Has (.stmt s)

section Work

variable {p : Program}

theorem Stmt.mem_visits_self (s : Stmt) (d : Nat) : ⟨.stmt s, d⟩ ∈ s.visits d := by
  cases s <;> simp [Stmt.visits]

theorem Expr.mem_visits_self (e : Expr) (d : Nat) : ⟨.expr e, d⟩ ∈ e.visits d := by
  cases e <;> simp [Expr.visits]

/-- A statement whose nodes are nodes of the script is one of its statements. -/
theorem Program.Has.of_visits {s : Stmt} {d : Nat} (h : s.visits d ⊆ p.visits) : p.Has (.stmt s) :=
  ⟨d, h (s.mem_visits_self d)⟩

theorem Work.Occurs.visits {w : Work} (h : w.Occurs p) : ∃ d, w.visits d ⊆ p.visits := by
  cases w with
  | stmt s => exact Program.Has.visits h
  | loopUpdate e =>
    obtain ⟨init, test, body, span, h⟩ := h
    obtain ⟨d, hd⟩ := h.visits
    refine ⟨d, fun x (hx : x ∈ e.visits d) => hd ?_⟩
    simp [Node.visits, Stmt.visits, Expr.optionVisits, hx]
  | loopCheck s =>
    obtain ⟨_, _, _, _, _, -, h⟩ := h
    exact Program.Has.visits h

mutual

/-- The first unit of a statement and the work after it are statements, and the unit is no block and not empty. -/
theorem Stmt.firstUnit?_stmts {w : Work} {rest : List Work} : ∀ {s : Stmt}, s.firstUnit? = some (w, rest) →
    w.transparent = false ∧ ∀ w' ∈ w :: rest, ∃ s', w' = .stmt s'
  | .block body _, h => by
    have hb : Stmt.firstUnitOf? body = some (w, rest) := h
    exact Stmt.firstUnitOf?_stmts hb
  | .empty _, h => by cases h
  | .declare _ _ _, h | .function _, h | .expr _ _, h | .ifElse _ _ _ _, h | .for _ _ _ _ _, h | .ret _ _, h
  | .unsupported _ _, h => by cases h; exact ⟨rfl, by simp⟩

theorem Stmt.firstUnitOf?_stmts {w : Work} {rest : List Work} : ∀ {body : List Stmt},
    Stmt.firstUnitOf? body = some (w, rest) → w.transparent = false ∧ ∀ w' ∈ w :: rest, ∃ s', w' = .stmt s'
  | s :: body, h => by
    rw [Stmt.firstUnitOf?] at h
    cases hs : s.firstUnit? with
    | none => rw [hs] at h; exact Stmt.firstUnitOf?_stmts h
    | some u =>
      obtain ⟨u, more⟩ := u
      rw [hs] at h
      cases h
      obtain ⟨hunit, hmore⟩ := Stmt.firstUnit?_stmts hs
      refine ⟨hunit, fun w' hw' => ?_⟩
      rw [← List.cons_append] at hw'
      rcases List.mem_append.1 hw' with hw' | hw'
      · exact hmore w' hw'
      · obtain ⟨s', -, rfl⟩ := List.mem_map.1 hw'
        exact ⟨s', rfl⟩

end

theorem Stmt.firstUnit?_occurs {s : Stmt} {w : Work} {rest : List Work} (h : s.firstUnit? = some (w, rest))
    (hs : p.Has (.stmt s)) : w.Occurs p ∧ ∀ w' ∈ rest, w'.Occurs p := by
  obtain ⟨d, hd⟩ := hs.visits
  have ⟨hw, hrest⟩ := Stmt.firstUnit?_visits d h
  have hall : ∀ w' ∈ w :: rest, w'.Occurs p := by
    intro w' hw'
    obtain ⟨s', rfl⟩ := (Stmt.firstUnit?_stmts h).2 w' hw'
    have hsub : s'.visits d ⊆ s.visits d := by
      rcases List.mem_cons.1 hw' with rfl | hw'
      · exact hw
      · exact hrest _ hw'
    exact .of_visits (List.Subset.trans hsub hd)
  exact List.forall_mem_cons.1 hall

theorem takeUnit?_occurs {unit : Work} {rest queue : List Work} (h : takeUnit? queue = some (unit, rest))
    (hq : ∀ w ∈ queue, w.Occurs p) : unit.Occurs p ∧ ∀ w ∈ rest, w.Occurs p := by
  induction queue with
  | nil => cases h
  | cons w queue ih =>
    obtain ⟨hw, hqueue⟩ := List.forall_mem_cons.1 hq
    cases w with
    | loopUpdate _ | loopCheck _ => cases h; exact ⟨hw, hqueue⟩
    | stmt s =>
      rw [takeUnit?] at h
      cases hu : s.firstUnit? with
      | none => rw [hu] at h; exact ih h hqueue
      | some u =>
        obtain ⟨u, more⟩ := u
        rw [hu] at h
        cases h
        obtain ⟨hunit, hmore⟩ := Stmt.firstUnit?_occurs hu hw
        exact ⟨hunit, List.forall_mem_append.2 ⟨hmore, hqueue⟩⟩

/-- Blocks and empty statements are no units. -/
theorem takeUnit?_transparent {unit : Work} {rest queue : List Work} (h : takeUnit? queue = some (unit, rest)) :
    unit.transparent = false := by
  induction queue with
  | nil => cases h
  | cons w queue ih =>
    cases w with
    | loopUpdate _ | loopCheck _ => cases h; rfl
    | stmt s =>
      rw [takeUnit?] at h
      cases hu : s.firstUnit? with
      | none => rw [hu] at h; exact ih h
      | some u =>
        rw [hu] at h
        cases h
        exact (Stmt.firstUnit?_stmts hu).1

theorem loopRound_occurs {s : Stmt} (hs : p.Has (.stmt s)) : ∀ w ∈ loopRound s, w.Occurs p := by
  cases s with
  | «for» init test update body span =>
    intro w hw
    simp only [loopRound, List.cons_append, List.mem_cons, List.mem_append, Option.mem_toList, Option.map_eq_some_iff,
      List.not_mem_nil, or_false] at hw
    rcases hw with rfl | ⟨e, rfl, rfl⟩ | rfl
    · obtain ⟨d, hd⟩ := hs.visits
      refine .of_visits (d := d) fun x hx => hd ?_
      simp [Node.visits, Stmt.visits, hx]
    · exact ⟨init, test, body, span, hs⟩
    · exact ⟨init, test, update, body, span, rfl, hs⟩
  | _ => simp [loopRound]

/-- Units leave statements to do, or the next round of a loop. -/
theorem Work.run_next (w : Work) : Keeps (fun _ => True) w.run fun o => ∀ work, o = .next work →
    (∀ w' ∈ work, ∃ s, w' = .stmt s) ∨ ∃ loop, (w = .stmt loop ∨ w = .loopCheck loop) ∧ work = loopRound loop := by
  have hdone {Q : List Work → Prop} (hq : Q []) : ∀ work, Outcome.next [] = .next work → Q work := by
    rintro _ ⟨⟩
    exact hq
  cases w with
  | loopUpdate e => exact Keeps.bind Keeps.trivially fun _ _ => Keeps.pure (hdone (.inl (by simp)))
  | loopCheck loop =>
    cases loop with
    | «for» init test update body span =>
      refine Keeps.bind Keeps.trivially fun b _ => ?_
      split
      · refine Keeps.pure ?_
        rintro _ ⟨⟩
        exact .inr ⟨_, .inr rfl, rfl⟩
      · exact Keeps.pure (hdone (.inl (by simp)))
    | _ => exact Keeps.pure (hdone (.inl (by simp)))
  | stmt s =>
    cases s with
    | block body span =>
      refine Keeps.pure ?_
      rintro _ ⟨⟩
      refine .inl fun w' hw' => ?_
      obtain ⟨s, -, rfl⟩ := List.mem_map.1 hw'
      exact ⟨s, rfl⟩
    | ifElse test thenS elseS span =>
      refine Keeps.bind Keeps.trivially fun v _ => ?_
      split
      · refine Keeps.pure ?_
        rintro _ ⟨⟩
        exact .inl (by simp)
      · refine Keeps.pure ?_
        rintro _ ⟨⟩
        refine .inl fun w' hw' => ?_
        obtain ⟨s, -, rfl⟩ := Option.map_eq_some_iff.1 (Option.mem_toList.1 hw')
        exact ⟨s, rfl⟩
    | «for» init test update body span =>
      refine Keeps.bind Keeps.trivially fun _ _ => Keeps.bind Keeps.trivially fun b _ => ?_
      split
      · refine Keeps.pure ?_
        rintro _ ⟨⟩
        exact .inr ⟨_, .inl rfl, rfl⟩
      · exact Keeps.pure (hdone (.inl (by simp)))
    | declare kind decls span => exact Keeps.bind Keeps.trivially fun _ _ => Keeps.pure (hdone (.inl (by simp)))
    | function fn =>
      exact Keeps.bind Keeps.trivially fun _ _ => Keeps.bind Keeps.trivially fun _ _ =>
        Keeps.pure (hdone (.inl (by simp)))
    | expr e span => exact Keeps.bind Keeps.trivially fun _ _ => Keeps.pure (hdone (.inl (by simp)))
    | ret value span => exact Keeps.bind Keeps.trivially fun _ _ => Keeps.pure nofun
    | empty span => exact Keeps.pure (hdone (.inl (by simp)))
    | unsupported kind span => exact Keeps.bind Keeps.trivially fun _ _ => Keeps.pure (hdone (.inl (by simp)))

/-- **Units** of the script leave work of the script to do. -/
theorem Work.run_occurs {I : Context → Prop} {V : Value → Prop} (h : Closed I V p.Has) {w : Work} (hw : w.Occurs p) :
    Keeps I w.run fun o => ∀ work, o = .next work → ∀ w' ∈ work, w'.Occurs p := by
  obtain ⟨d, hd⟩ := hw.visits
  have hkeeps := w.run_keeps h d fun x hx => ⟨x.depth, hd hx⟩
  refine (hkeeps.and w.run_next).mono fun o ho work hwork w' hw' => ?_
  obtain ⟨hwithin, hnext⟩ := ho
  subst hwork
  rcases hnext work rfl with hstmts | ⟨loop, hloop, rfl⟩
  · obtain ⟨s, rfl⟩ := hstmts w' hw'
    exact .of_visits (List.Subset.trans (hwithin _ hw') hd)
  · rcases hloop with rfl | rfl
    · exact loopRound_occurs hw w' hw'
    · obtain ⟨_, _, _, _, _, -, hs⟩ := hw
      exact loopRound_occurs hs w' hw'

end Work

/-! ## Machines -/

/-- A function of the script, if it is one. -/
def Value.FromScript (p : Program) (v : Value) : Prop := ∀ fn, v = .func fn → p.HasFunction fn

theorem Value.fromScript_lax (p : Program) : Value.Lax (Value.FromScript p) := fun _ hf _ fn h => absurd h (hf fn)

/-- The entries of the log have `E`, callbacks are functions of the script, and the page lends nothing. -/
structure World.FromScript (E : LogEntry → Prop) (p : Program) (w : World) : Prop where
  logs : ∀ entry ∈ w.logs, E entry
  callbacks : ∀ l ∈ w.listeners, l.callback.Every (Value.FromScript p)
  lent : ∀ d ∈ w.document, d.lent = ∅

namespace World.FromScript

variable {E : LogEntry → Prop} {p : Program} {w : World}

theorem log (h : w.FromScript E p) {entry : LogEntry} (he : E entry) : (w.log entry).FromScript E p :=
  ⟨List.forall_mem_append.2 ⟨h.logs, List.forall_mem_singleton.2 he⟩, h.callbacks, h.lent⟩

theorem of_document (h : w.FromScript E p) {d d' : Document} (hd : w.document = some d) (hl : d'.lent = d.lent) :
    World.FromScript E p { w with document := some d' } := by
  refine ⟨h.logs, h.callbacks, fun d'' hd'' => ?_⟩
  cases hd''
  exact hl.trans (h.lent d hd)

end World.FromScript

def scriptParts (E : LogEntry → Prop) (p : Program) : Parts :=
  ⟨Value.Every (Value.FromScript p), fun queue => ∀ w ∈ queue, w.Occurs p, World.FromScript E p⟩

/-- What is logged on a line with `L` has `E`: notes of what happens, and notes of what is skipped. -/
structure Logs (L : Option Nat → Prop) (p : Program) (E : LogEntry → Prop) : Prop where
  noted : ∀ {kind message line}, L line → kind ≠ .diagnostic → E ⟨kind, message, line⟩
  skipped : ∀ {message line}, L line → Skips p.Has message → E ⟨.diagnostic, message, line⟩

section Kept

variable {L : Option Nat → Prop} {E : LogEntry → Prop} {p : Program} {line : Option Nat}

open Value

theorem script_host (hE : Logs L p E) (hl : L line) :
    ClosedHost ((scriptParts E p).OfContext line) (scriptParts E p).value where
  plain _ hv := every_of_isPlain (fromScript_lax p) hv
  element _ _ _ := every_element.2 nofun
  elements _ _ _ := by
    refine (every_list (fromScript_lax p)).2 fun v hv => ?_
    obtain ⟨handle, -, rfl⟩ := List.mem_map.1 hv
    exact every_element.2 nofun
  console hc := hc.of_world (hc.world.log (hE.noted (hc.line ▸ hl) (by decide)))
  registered {c target event callback} hv hc := by
    have hlog : E ⟨.event, s!"Listening for {event} events on {target.text}", c.line⟩ :=
      hE.noted (hc.line ▸ hl) (by decide)
    refine hc.of_world ⟨?_, ?_, fun d hd => ?_⟩
    · exact List.forall_mem_append.2 ⟨hc.world.logs, List.forall_mem_singleton.2 hlog⟩
    · exact List.forall_mem_append.2 ⟨hc.world.callbacks, List.forall_mem_singleton.2 hv⟩
    · obtain ⟨d', hd', rfl⟩ := Option.map_eq_some_iff.1 hd
      exact (d'.lent_listen target.node event).trans (hc.world.lent d' hd')
  member hc hd hr := by
    have ⟨hv, hlent⟩ := Document.call_ok (Document.callMember_ok hr)
    exact ⟨every_of_isPlain (fromScript_lax p) hv, hc.of_world (hc.world.of_document hd hlent)⟩
  called hc hd hr := by
    have ⟨hv, hlent⟩ := Document.callGlobal_ok hr
    exact ⟨every_of_isPlain (fromScript_lax p) hv, hc.of_world (hc.world.of_document hd hlent)⟩

theorem script_kept (hE : Logs L p E) : (scriptParts E p).Kept L p.Has where
  plain _ hv := every_of_isPlain (fromScript_lax p) hv
  predefined hw hv := Context.every_predefined? (fromScript_lax p) hw.lent hv
  read _ ho hv := Context.every_readMember (fromScript_lax p) ho hv
  write hw hd hr := hw.of_document hd (Document.lent_writeMember hr)
  logged hl hk hw := hw.log (hE.noted hl hk)
  skipped hl hn hw := hw.log (hE.skipped hl hn)
  builtin hl _ ha := callBuiltin_keeps (script_host hE hl) ha
  callback hw hl := hw.callbacks _ hl
  body {fn} hf := by
    obtain ⟨d, hd⟩ := (every_func.1 hf fn rfl).body_visits
    exact List.forall_mem_singleton.2 (Program.Has.of_visits hd)
  function {fn} hn := every_func.2 fun _ h => by cases h; exact .inl hn
  declared {fn} hn := every_func.2 fun _ h => by cases h; exact .inr hn

/-- **Runs stay within the script**, if its units stand on lines with `L` and what is logged there has `E`. -/
theorem script_invariant (hE : Logs L p E)
    (hlines : ∀ w : Work, w.Occurs p → w.transparent = false → L (some w.span.line)) :
    Machine.LineInvariant L (scriptParts E p).OfStack := by
  refine (script_kept hE).invariant (by simp [scriptParts]) (fun hq ht => ?_) (fun hq ht => ?_) fun hl hq ht => ?_
  · exact hlines _ (takeUnit?_occurs ht hq).1 (takeUnit?_transparent ht)
  · exact (takeUnit?_occurs ht hq).2
  · have ⟨hunit, hrest⟩ := takeUnit?_occurs ht hq
    refine (Work.run_occurs ((script_kept hE).closed hl) hunit).mono fun o ho work hwork => ?_
    exact List.forall_mem_append.2 ⟨ho work hwork, hrest⟩

end Kept

/-- A machine that just loaded a script is within it. -/
theorem Machine.ofProgram_within {E : LogEntry → Prop} (p : Program) (findings : List Finding) (scoping : Scoping)
    {document : Option Document} (hd : ∀ d ∈ document, d.lent = ∅) :
    (scriptParts E p).OfStack (ofProgram p findings scoping document).stack
      (ofProgram p findings scoping document).world := by
  have hqueue : ∀ w ∈ [Work.stmt p.body], w.Occurs p :=
    List.forall_mem_singleton.2 ⟨0, p.body.mem_visits_self 0⟩
  exact ⟨⟨Parts.OfScope.empty, hqueue⟩, by simp [ofProgram, Stack.start], nofun, nofun, hd⟩

end Stepwise

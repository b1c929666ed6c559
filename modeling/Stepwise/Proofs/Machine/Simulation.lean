import Stepwise.Proofs.Machine.Ending
import Stepwise.Proofs.Machine.Units

/-!
# The machine follows the reference

An activation runs at the top level or as a call above other calls (`Place`). `Machine.inside` is the machine in which
it has the next work, and `Machine.outside` the machine in which it is gone. If the reference runs a statement to an
exit, the machine with the statement in front of its queue ends as it does after that exit (`StmtRuns.ends`). The proof
follows the derivation; the machine's stack is taken apart only in the lemmas on one unit.
-/

namespace Stepwise

/-- Where an activation runs. -/
inductive Place where
  | top
  /-- A call with other calls below it, where the top level has the given work left. -/
  | call (name : String) (below : List Activation) (queue : List Work)

namespace Place

def name : Place → String
  | top => "(global)"
  | call name _ _ => name

def inCall : Place → Bool
  | top => false
  | call .. => true

/-- The calls from the activation on, where it has the given scope and queue. -/
def calls (scope : Option Scope) (queue : List Work) : Place → List Activation
  | top => []
  | call name below _ => ⟨⟨scope.getD .empty, queue⟩, name, none⟩ :: below

/-- The queue of the top level, where the activation has the given one. -/
def topQueue (queue : List Work) : Place → List Work
  | top => queue
  | call _ _ rest => rest

/-- The calls below the activation. -/
def below : Place → List Activation
  | top => []
  | call _ below _ => below

/-- What the top level has left when the activation is gone. -/
def rest : Place → List Work
  | top => []
  | call _ _ rest => rest

end Place

namespace Machine

/-- An activation has the next work, once the calls that were pushed are done. -/
def inside (m : Machine) (p : Place) (s : Store) (pushed : List Activation) (l : Option Scope) (queue : List Work) :
    Machine := m.resume s (pushed ++ p.calls l queue) (p.topQueue queue)

/-- An activation is gone. -/
def outside (m : Machine) (p : Place) (s : Store) (pushed : List Activation) : Machine :=
  m.resume s (pushed ++ p.below) p.rest

section Inside

variable {m : Machine} {p : Place} {s : Store} {l : Option Scope} {queue rest work : List Work} {unit : Work}
  {c : Context} {v : Value} {e : RuntimeError} {r : Summary}

theorem ends_inside_next (h : takeUnit? queue = some (unit, rest)) (hl : l.isSome = p.inCall)
    (hu : unit.run (s.context m.scoping l unit.span) = .ok (.next work) c) :
    (m.inside p s [] l queue).Ends r ↔ (m.inside p (s.after unit.span c) c.pushed c.locals (work ++ rest)).Ends r := by
  have hk := (Work.run_proper hu).locals_isSome
  cases p with
  | top =>
    obtain rfl : l = none := by simpa [Place.inCall] using hl
    simpa only [inside, Place.calls, Place.topQueue, List.append_nil] using ends_global_next h hu
  | call name below gq =>
    obtain ⟨scope, rfl⟩ := Option.isSome_iff_exists.1 hl
    obtain ⟨scope', hs⟩ := Option.isSome_iff_exists.1 hk
    refine (ends_call_next (a := ⟨⟨scope, queue⟩, name, none⟩) h hu).trans ?_
    simp only [inside, Place.calls, Place.topQueue, Activation.after, hs, Option.getD_some]

theorem ends_inside_leave (h : takeUnit? queue = some (unit, rest)) (hl : l.isSome = p.inCall)
    (hu : unit.run (s.context m.scoping l unit.span) = .ok (.leave v) c) :
    (m.inside p s [] l queue).Ends r ↔
      (m.outside p ((s.after unit.span c).logReturn p.name v) c.pushed).Ends r := by
  cases p with
  | top =>
    obtain rfl : l = none := by simpa [Place.inCall] using hl
    simpa only [inside, outside, Place.calls, Place.topQueue, Place.below, Place.rest, Place.name, List.append_nil]
      using ends_global_leave h hu
  | call name below gq =>
    obtain ⟨scope, rfl⟩ := Option.isSome_iff_exists.1 hl
    exact ends_call_leave (a := ⟨⟨scope, queue⟩, name, none⟩) h hu

theorem ends_inside_error (h : takeUnit? queue = some (unit, rest)) (hl : l.isSome = p.inCall)
    (hu : unit.run (s.context m.scoping l unit.span) = .error e c) :
    (m.inside p s [] l queue).Ends r ↔ (s.after unit.span c).summary (some e) = r := by
  cases p with
  | top =>
    obtain rfl : l = none := by simpa [Place.inCall] using hl
    exact ends_global_error h hu
  | call name below gq =>
    obtain ⟨scope, rfl⟩ := Option.isSome_iff_exists.1 hl
    exact ends_call_error (a := ⟨⟨scope, queue⟩, name, none⟩) h hu

/-- An activation without work is as good as gone. -/
theorem ends_inside_done (h : takeUnit? queue = none) :
    (m.inside p s [] l queue).Ends r ↔ (m.outside p s []).Ends r := by
  cases p with
  | top => exact (ends_idle h).trans (ends_idle rfl).symm
  | call name below gq => exact ends_exhausted (a := ⟨⟨_, queue⟩, name, none⟩) h

/-- Only the next unit of a queue and what follows it matter. -/
theorem ends_inside_congr {queue' : List Work} (h : takeUnit? queue = takeUnit? queue') (hl : l.isSome = p.inCall) :
    (m.inside p s [] l queue).Ends r ↔ (m.inside p s [] l queue').Ends r := by
  cases hq : takeUnit? queue' with
  | none => rw [ends_inside_done (h.trans hq), ends_inside_done hq]
  | some u =>
    obtain ⟨unit, rest⟩ := u
    have hq' := h.trans hq
    cases hu : unit.run (s.context m.scoping l unit.span) with
    | error e c => rw [ends_inside_error hq' hl hu, ends_inside_error hq hl hu]
    | ok o c =>
      cases o with
      | next work => rw [ends_inside_next hq' hl hu, ends_inside_next hq hl hu]
      | leave v => rw [ends_inside_leave hq' hl hu, ends_inside_leave hq hl hu]

end Inside

/-- How the machine ends after an exit, where the activation has `queue` left. -/
def EndsAfter (m : Machine) (p : Place) (queue : List Work) (r : Summary) : Exit → Store → Prop
  | .next l, t => (m.inside p t [] l queue).Ends r
  | .left, t => (m.outside p t []).Ends r
  | .failed e, t => t.summary (some e) = r

theorem endsAfter_stop {m : Machine} {p : Place} {x : Exit} (h : x.continues = false) (queue queue' : List Work)
    (r : Summary) (t : Store) : m.EndsAfter p queue r x t ↔ m.EndsAfter p queue' r x t := by
  cases x with
  | next l => cases h
  | _ => rfl

/-- The same after calls that were pushed, where `calls` and `queue` are left. -/
def EndsAfterCalls (m : Machine) (calls : List Activation) (queue : List Work) (r : Summary) :
    Option RuntimeError → Store → Prop
  | none, t => (m.resume t calls queue).Ends r
  | some e, t => t.summary (some e) = r

end Machine

/-! ## One unit -/

/-- What a derivation for a unit says, where the calls that it made are replaced by what they do to the machine. -/
def UnitEnds (m : Machine) (r : Summary) {α : Type} (act : Eval α) (span : Span) (l : Option Scope) (s : Store) :
    Except RuntimeError (α × Option Scope) → Store → Prop
  | .ok (a, k), t => ∃ c, act (s.context m.scoping l span) = .ok a c ∧ c.locals = k ∧ ∀ calls queue,
    (m.resume (s.after span c) (c.pushed ++ calls) queue).Ends r ↔ (m.resume t calls queue).Ends r
  | .error e, t =>
    (∃ a c, act (s.context m.scoping l span) = .ok a c ∧ ∀ calls queue,
      (m.resume (s.after span c) (c.pushed ++ calls) queue).Ends r ↔ t.summary (some e) = r) ∨
    ∃ c, act (s.context m.scoping l span) = .error e c ∧ t = s.after span c

section Unit

variable {m : Machine} {r : Summary} {p : Place} {span : Span} {l k : Option Scope} {s t : Store} {e : RuntimeError}

open Machine

section Next

variable {α : Type} {act : Eval α} {a : α} {unit : Work} {f : α → List Work} {queue rest : List Work}

theorem UnitEnds.next (h : UnitEnds m r act span l s (.ok (a, k)) t)
    (hu : unit.run = act >>= fun a => pure (.next (f a))) (hs : unit.span = span)
    (hq : takeUnit? queue = some (unit, rest)) (hl : l.isSome = p.inCall) : k.isSome = p.inCall ∧
      ((m.inside p s [] l queue).Ends r ↔ (m.inside p t [] k (f a ++ rest)).Ends r) := by
  subst hs
  obtain ⟨c, ha, rfl, hc⟩ := h
  have hr : unit.run (s.context m.scoping l unit.span) = .ok (.next (f a)) c := by
    rw [hu, Eval.bind_pure_apply, ha]
  exact ⟨(Work.run_proper hr).locals_isSome.trans hl, (ends_inside_next hq hl hr).trans (hc _ _)⟩

theorem UnitEnds.next_error (h : UnitEnds m r act span l s (.error e) t)
    (hu : unit.run = act >>= fun a => pure (.next (f a))) (hs : unit.span = span)
    (hq : takeUnit? queue = some (unit, rest)) (hl : l.isSome = p.inCall) :
    (m.inside p s [] l queue).Ends r ↔ t.summary (some e) = r := by
  subst hs
  rcases h with ⟨a, c, ha, hc⟩ | ⟨c, ha, rfl⟩
  · exact (ends_inside_next hq hl (by rw [hu, Eval.bind_pure_apply, ha])).trans (hc _ _)
  · exact ends_inside_error hq hl (by rw [hu, Eval.bind_pure_apply, ha])

end Next

section Return

variable {value : Option Expr}

/-- The reference logs a returned value in the unit, the machine right after it. -/
theorem returnValue_ok {name : String} {u : Unit} {c : Context} (h : returnValue name value (s.context m.scoping l span) = .ok u c) :
    ∃ v d, (Work.stmt (.ret value span)).run (s.context m.scoping l span) = .ok (.leave v) d ∧
      c = d.log .ret s!"{name} returned {v.shown}" := by
  unfold returnValue at h
  cases hv : evalOption value (s.context m.scoping l span) with
  | error e d => rw [Eval.bind_error hv] at h; cases h
  | ok v d =>
    rw [Eval.bind_ok hv] at h
    cases h
    exact ⟨v, d, by rw [run_ret, Eval.bind_pure_apply, hv], rfl⟩

theorem ends_return {c : Context} {u : Unit} (h : returnValue p.name value (s.context m.scoping l span) = .ok u c)
    (hl : l.isSome = p.inCall) (queue : List Work) : (∀ a ∈ c.pushed, a.IsFresh) ∧
      ((m.inside p s [] l (.stmt (.ret value span) :: queue)).Ends r ↔
        (m.outside p (s.after span c) c.pushed).Ends r) := by
  obtain ⟨v, d, hu, rfl⟩ := returnValue_ok h
  refine ⟨(Work.run_proper hu).fresh, ?_⟩
  rw [ends_inside_leave (takeUnit?_visible rfl queue) hl hu]
  unfold Store.logReturn Store.log Context.log Store.after
  rw [(Work.run_proper hu).line_eq]
  rfl

theorem ends_return_error {name : String} {c : Context}
    (h : returnValue name value (s.context m.scoping l span) = .error e c) (hl : l.isSome = p.inCall)
    (queue : List Work) :
    (m.inside p s [] l (.stmt (.ret value span) :: queue)).Ends r ↔ (s.after span c).summary (some e) = r := by
  unfold returnValue at h
  cases hv : evalOption value (s.context m.scoping l span) with
  | ok v d => rw [Eval.bind_ok hv] at h; cases h
  | error e' d =>
    rw [Eval.bind_error hv] at h
    cases h
    have hu : (Work.stmt (.ret value span)).run (s.context m.scoping l span) = .error e c := by
      rw [run_ret, Eval.bind_pure_apply, hv]
    exact ends_inside_error (takeUnit?_visible rfl queue) hl hu

theorem UnitEnds.leave {u : Unit} (h : UnitEnds m r (returnValue p.name value) span l s (.ok (u, k)) t)
    (hl : l.isSome = p.inCall) (queue : List Work) :
    (m.inside p s [] l (.stmt (.ret value span) :: queue)).Ends r ↔ (m.outside p t []).Ends r := by
  obtain ⟨c, ha, -, hc⟩ := h
  exact (ends_return ha hl queue).2.trans (hc _ _)

theorem UnitEnds.leave_error (h : UnitEnds m r (returnValue p.name value) span l s (.error e) t)
    (hl : l.isSome = p.inCall) (queue : List Work) :
    (m.inside p s [] l (.stmt (.ret value span) :: queue)).Ends r ↔ t.summary (some e) = r := by
  rcases h with ⟨a, c, ha, hc⟩ | ⟨c, ha, rfl⟩
  · exact (ends_return ha hl queue).2.trans (hc _ _)
  · exact ends_return_error ha hl queue

end Return

end Unit

/-! ## Derivations -/

theorem loopRound_append (init : Option ForInit) (test update : Option Expr) (body : Stmt) (span : Span)
    (queue : List Work) : loopRound (.for init test update body span) ++ queue =
      .stmt body :: ((update.map Work.loopUpdate).toList ++ .loopCheck (.for init test update body span) :: queue) := by
  simp [loopRound]

/-- An exit leaves a local scope if and only if there was one. -/
def Exit.Fits (p : Place) : Exit → Prop
  | next l => l.isSome = p.inCall
  | _ => True

section Derivations

variable {m : Machine} {r : Summary}

open Machine

mutual

theorem UnitRuns.ends {α : Type} {act : Eval α} {span : Span} {l : Option Scope} {s t : Store}
    {res : Except RuntimeError (α × Option Scope)} : UnitRuns m.scoping act span l s res t →
    UnitEnds m r act span l s res t
  | .done ha hc => ⟨_, ha, rfl, hc.ends⟩
  | .callFails ha hc => .inl ⟨_, _, ha, hc.ends⟩
  | .fails ha => .inr ⟨_, ha, rfl⟩

theorem CallsRun.ends {calls : List Activation} {s t : Store} {e : Option RuntimeError} :
    CallsRun m.scoping calls s e t → ∀ (below : List Activation) (queue : List Work),
    (m.resume s (calls ++ below) queue).Ends r ↔ m.EndsAfterCalls below queue r e t
  | .nil, _, _ => Iff.rfl
  | @CallsRun.cons _ scope body name calls s t u x e hb hx hc, below, queue => by
    have hs := (hb.ends (p := .call name (calls ++ below) queue) rfl rfl []).2
    refine hs.trans (.trans ?_ (hc.ends below queue))
    cases x with
    | next l => exact ends_inside_done rfl
    | left => rfl
    | failed e => cases hx
  | @CallsRun.fails _ scope body name calls s t e hb, below, queue =>
    (hb.ends (p := .call name (calls ++ below) queue) rfl rfl []).2

theorem StmtRuns.ends {name : String} {st : Stmt} {l : Option Scope} {s t : Store} {x : Exit} :
    StmtRuns m.scoping name st l s x t → ∀ {p : Place}, name = p.name → l.isSome = p.inCall → ∀ queue : List Work,
    x.Fits p ∧ ((m.inside p s [] l (.stmt st :: queue)).Ends r ↔ m.EndsAfter p queue r x t)
  | .block hb, p, hn, hl, queue => by
    have ⟨hx, he⟩ := hb.ends hn hl queue
    exact ⟨hx, (ends_inside_congr (takeUnit?_block _ _ queue) hl).trans he⟩
  | .empty, p, hn, hl, queue => ⟨hl, ends_inside_congr rfl hl⟩
  | .plain hp hu, p, hn, hl, queue =>
    hu.ends.next (run_plain hp) rfl (takeUnit?_visible (Stmt.transparent_of_isPlain hp) queue) hl
  | .plainFails hp hu, p, hn, hl, queue =>
    ⟨trivial, hu.ends.next_error (run_plain hp) rfl (takeUnit?_visible (Stmt.transparent_of_isPlain hp) queue) hl⟩
  | @StmtRuns.ifElse _ _ test thenS elseS span _ _ _ _ _ _ _ hu hb, p, hn, hl, queue => by
    have ⟨hk, he⟩ := hu.ends.next (run_ifElse test thenS elseS span) rfl (takeUnit?_visible rfl queue) hl
    have ⟨hx, hb⟩ := hb.ends hn hk queue
    exact ⟨hx, he.trans hb⟩
  | .ifFails hu, p, hn, hl, queue => ⟨trivial, hu.ends.next_error (run_ifElse _ _ _ _) rfl rfl hl⟩
  | @StmtRuns.loop _ _ init test update body span _ _ _ _ _ _ hu hb, p, hn, hl, queue => by
    have ⟨hk, he⟩ := hu.ends.next (run_for init test update body span) rfl (takeUnit?_visible rfl queue) hl
    have ⟨hx, hb⟩ := hb.ends init rfl hn hk queue
    exact ⟨hx, he.trans hb⟩
  | .loopPassed hu, p, hn, hl, queue => hu.ends.next (run_for _ _ _ _ _) rfl rfl hl
  | .loopFails hu, p, hn, hl, queue => ⟨trivial, hu.ends.next_error (run_for _ _ _ _ _) rfl rfl hl⟩
  | .ret hu, p, hn, hl, queue => ⟨trivial, (hn ▸ hu.ends).leave hl queue⟩
  | .retFails hu, p, hn, hl, queue => ⟨trivial, (hn ▸ hu.ends).leave_error hl queue⟩

theorem BodyRuns.ends {name : String} {body : List Stmt} {l : Option Scope} {s t : Store} {x : Exit} :
    BodyRuns m.scoping name body l s x t → ∀ {p : Place}, name = p.name → l.isSome = p.inCall → ∀ queue : List Work,
    x.Fits p ∧ ((m.inside p s [] l (body.map Work.stmt ++ queue)).Ends r ↔ m.EndsAfter p queue r x t)
  | .nil, p, hn, hl, queue => ⟨hl, Iff.rfl⟩
  | @BodyRuns.cons _ _ st rest _ _ _ _ _ _ hs hb, p, hn, hl, queue => by
    have ⟨hk, hs⟩ := hs.ends hn hl (rest.map Work.stmt ++ queue)
    have ⟨hx, hb⟩ := hb.ends hn hk queue
    exact ⟨hx, hs.trans hb⟩
  | @BodyRuns.stop _ _ st rest _ _ _ _ hs hc, p, hn, hl, queue => by
    have ⟨hx, hs⟩ := hs.ends hn hl (rest.map Work.stmt ++ queue)
    exact ⟨hx, hs.trans (endsAfter_stop hc _ _ r _)⟩

theorem RoundsRun.ends {name : String} {test update : Option Expr} {body : Stmt} {sp : Span} {l : Option Scope}
    {s t : Store} {x : Exit} : RoundsRun m.scoping name test update body sp l s x t →
    ∀ (init : Option ForInit) {span : Span} {p : Place}, sp = testSpan test span → name = p.name →
    l.isSome = p.inCall → ∀ queue : List Work,
    x.Fits p ∧ ((m.inside p s [] l (loopRound (.for init test update body span) ++ queue)).Ends r ↔
      m.EndsAfter p queue r x t)
  | .again hs hu ht hr, init, span, p, hsp, hn, hl, queue => by
    rw [loopRound_append]
    have hs := hs.ends hn hl
    have ⟨hj, hu⟩ := hu.ends (hs []).1 (.loopCheck (.for init test update body span) :: queue)
    have ⟨hi, ht⟩ := ht.ends.next (run_loopCheck init test update body span)
      ((span_loopCheck init test update body span).trans hsp.symm) (takeUnit?_visible rfl queue) hj
    have ⟨hx, hr⟩ := hr.ends init hsp hn hi queue
    exact ⟨hx, (hs _).2.trans (hu.trans (ht.trans hr))⟩
  | .passed hs hu ht, init, span, p, hsp, hn, hl, queue => by
    rw [loopRound_append]
    have hs := hs.ends hn hl
    have ⟨hj, hu⟩ := hu.ends (hs []).1 (.loopCheck (.for init test update body span) :: queue)
    have ⟨hi, ht⟩ := ht.ends.next (run_loopCheck init test update body span)
      ((span_loopCheck init test update body span).trans hsp.symm) (takeUnit?_visible rfl queue) hj
    exact ⟨hi, (hs _).2.trans (hu.trans ht)⟩
  | .testFails hs hu ht, init, span, p, hsp, hn, hl, queue => by
    rw [loopRound_append]
    have hs := hs.ends hn hl
    have ⟨hj, hu⟩ := hu.ends (hs []).1 (.loopCheck (.for init test update body span) :: queue)
    have ht := ht.ends.next_error (run_loopCheck init test update body span)
      ((span_loopCheck init test update body span).trans hsp.symm) (takeUnit?_visible rfl queue) hj
    exact ⟨trivial, (hs _).2.trans (hu.trans ht)⟩
  | .updateFails hs hu, init, span, p, hsp, hn, hl, queue => by
    rw [loopRound_append]
    have hs := hs.ends hn hl
    exact ⟨trivial, (hs _).2.trans (hu.ends (hs []).1 _)⟩
  | .stop hs hc, init, span, p, hsp, hn, hl, queue => by
    rw [loopRound_append]
    have hs := hs.ends hn hl
    exact ⟨(hs []).1, (hs _).2.trans (endsAfter_stop hc _ _ r _)⟩

theorem UpdateRuns.ends {update : Option Expr} {l : Option Scope} {s t : Store}
    {res : Except RuntimeError (Option Scope)} : UpdateRuns m.scoping update l s res t → ∀ {p : Place},
    l.isSome = p.inCall → ∀ queue : List Work, match res with
      | .ok k => k.isSome = p.inCall ∧
        ((m.inside p s [] l ((update.map Work.loopUpdate).toList ++ queue)).Ends r ↔ (m.inside p t [] k queue).Ends r)
      | .error e =>
        (m.inside p s [] l ((update.map Work.loopUpdate).toList ++ queue)).Ends r ↔ t.summary (some e) = r
  | .none, p, hl, queue => ⟨hl, Iff.rfl⟩
  | .some hu, p, hl, queue => hu.ends.next (run_loopUpdate _) rfl rfl hl
  | .fails hu, p, hl, queue => hu.ends.next_error (run_loopUpdate _) rfl rfl hl

end

end Derivations

end Stepwise

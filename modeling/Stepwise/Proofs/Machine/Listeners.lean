import Stepwise.Proofs.Machine.Turns

/-!
# The order of listeners

A built-in callback runs while the event is fired, and a callback of the script later, as a call. `Machine.InTurn` runs
callbacks one after the other, each of them to its end before the next one. Firing an event and running on until it is
handled does the same, but not in the order of registration: all built-in callbacks come first, the last one registered
at the front, and then the callbacks of the script (`effectOrder`).

**`Machine.listeners_in_turn`** says so. Two listeners take effect in the order of their registration if the later one is a
function of the script, and in the opposite order if it is built-in (`effects_not_in_registration_order` is such a case).
-/

namespace Stepwise

open Eval
open Stage (Returns)

/-! ## Listeners -/

namespace Listener

variable (c : Context) (event : String) (l : Listener)

def isBuiltin : Bool :=
  match l.callback with
  | .builtin .. => true
  | _ => false

/-- The call that is made for a callback `fn` when the event is fired in the context `c`. -/
def call (fn : FunctionDef) : Activation :=
  ⟨⟨c.callScope fn [], [.stmt fn.body]⟩, fn.displayName, some ⟨event, l.target.text⟩⟩

/-- The call that is made for a listener, if its callback is a function of the script. -/
def call? : Option Activation :=
  match l.callback with
  | .func fn => some (l.call c event fn)
  | _ => none

end Listener

/-- The order in which listeners take effect: built-in callbacks last to first, then those of the script. -/
def effectOrder (listeners : List Listener) : List Listener :=
  (listeners.filter (·.isBuiltin)).reverse ++ listeners.filter (! ·.isBuiltin)

/-- A later listener takes effect earlier if and only if it is built-in. -/
theorem effectOrder_pair {listeners : List Listener} {first second : Listener}
    (h : [first, second].Sublist listeners) :
    if second.isBuiltin then [second, first].Sublist (effectOrder listeners)
    else [first, second].Sublist (effectOrder listeners) := by
  have hfirst : first ∈ listeners := h.subset (by simp)
  have hsecond : second ∈ listeners := h.subset (by simp)
  cases hs : second.isBuiltin with
  | true =>
    have hmem : second ∈ (listeners.filter (·.isBuiltin)).reverse := by simp [hsecond, hs]
    cases hf : first.isBuiltin with
    | true =>
      have hboth := (h.filter (·.isBuiltin)).reverse
      simp only [List.filter_cons, hf, hs, List.filter_nil, ↓reduceIte] at hboth
      exact hboth.trans (List.sublist_append_left _ _)
    | false =>
      have hrest : first ∈ listeners.filter (! ·.isBuiltin) := by simp [hfirst, hf]
      exact (List.singleton_sublist.2 hmem).append (List.singleton_sublist.2 hrest)
  | false =>
    have hmem : second ∈ listeners.filter (! ·.isBuiltin) := by simp [hsecond, hs]
    cases hf : first.isBuiltin with
    | true =>
      have hrest : first ∈ (listeners.filter (·.isBuiltin)).reverse := by simp [hfirst, hf]
      exact (List.singleton_sublist.2 hrest).append (List.singleton_sublist.2 hmem)
    | false =>
      have hboth := h.filter (! ·.isBuiltin)
      simp only [List.filter_cons, hf, hs, List.filter_nil, Bool.not_false, ↓reduceIte] at hboth
      exact hboth.trans (List.sublist_append_right _ _)

namespace Machine

/-- The callbacks of listeners run one after the other, each of them alone and to its end. Calls start with what the context
`c` gives, where the event was fired. -/
inductive InTurn (event : String) (c : Context) : List Listener → Machine → Machine → Prop where
  | nil (m : Machine) : InTurn event c [] m m
  | builtin {l : Listener} {ls : List Listener} {m n : Machine} {fn : Builtin} {receiver : Option Value} {v : Value}
      {d : Context} : l.callback = .builtin fn receiver → callBuiltin fn receiver [] (m.context none) = .ok v d →
    InTurn event c ls { m with world := d.world } n → InTurn event c (l :: ls) m n
  | script {l : Listener} {ls : List Listener} {m k n : Machine} {fn : FunctionDef} :
    l.callback = .func fn → m.RunsCall (l.call c event fn) k → InTurn event c ls k n → InTurn event c (l :: ls) m n

section

variable {event : String} {c : Context} {m n : Machine}

theorem inTurn_append {xs ys : List Listener} :
    InTurn event c (xs ++ ys) m n ↔ ∃ k, InTurn event c xs m k ∧ InTurn event c ys k n := by
  induction xs generalizing m with
  | nil =>
    constructor
    · exact fun h => ⟨m, .nil m, h⟩
    · rintro ⟨k, hk, h⟩
      cases hk
      exact h
  | cons x xs ih =>
    constructor
    · intro h
      cases h with
      | builtin hx hr h =>
        obtain ⟨k, hk, h⟩ := ih.1 h
        exact ⟨k, .builtin hx hr hk, h⟩
      | script hx hr h =>
        obtain ⟨k, hk, h⟩ := ih.1 h
        exact ⟨k, .script hx hr hk, h⟩
    · rintro ⟨k, hk, h⟩
      cases hk with
      | builtin hx hr hk => exact .builtin hx hr (ih.2 ⟨k, hk, h⟩)
      | script hx hr hk => exact .script hx hr (ih.2 ⟨k, hk, h⟩)

/-- Callbacks of the script run in turn as their calls do. -/
theorem inTurn_scripts {ls : List Listener} (h : ∀ l ∈ ls, l.isBuiltin = false) : InTurn event c ls m n ↔
    (∀ l ∈ ls, (l.call? c event).isSome = true) ∧ CallsInTurn (ls.filterMap (·.call? c event)) m n := by
  induction ls generalizing m with
  | nil =>
    constructor
    · intro hn
      cases hn
      exact ⟨by simp, .nil _⟩
    · rintro ⟨-, hn⟩
      cases hn
      exact .nil _
  | cons l ls ih =>
    obtain ⟨hl, hls⟩ := List.forall_mem_cons.1 h
    cases hc : l.callback with
    | builtin fn receiver =>
      rw [Listener.isBuiltin, hc] at hl
      cases hl
    | func fn =>
      have hcall : l.call? c event = some (l.call c event fn) := by rw [Listener.call?, hc]
      rw [List.filterMap_cons_some hcall]
      constructor
      · intro hn
        cases hn with
        | builtin hx => rw [hc] at hx; cases hx
        | script hx hr hn =>
          rw [hc] at hx
          cases hx
          obtain ⟨hall, hturn⟩ := (ih hls).1 hn
          exact ⟨List.forall_mem_cons.2 ⟨by rw [hcall]; rfl, hall⟩, .cons hr hturn⟩
      · rintro ⟨hall, hn⟩
        cases hn with
        | cons hr hn => exact .script hc hr ((ih hls).2 ⟨(List.forall_mem_cons.1 hall).2, hn⟩)
    | _ =>
      have hcall : l.call? c event = none := by rw [Listener.call?, hc]
      constructor
      · intro hn
        cases hn with
        | builtin hx => rw [hc] at hx; cases hx
        | script hx => rw [hc] at hx; cases hx
      · rintro ⟨hall, -⟩
        have hs := (List.forall_mem_cons.1 hall).1
        rw [hcall] at hs
        cases hs

/-! ## Firing an event -/

theorem callScope_congr {c d : Context} (hs : c.scoping = d.scoping) (hg : c.globals = d.globals) (fn : FunctionDef)
    (args : List Value) : c.callScope fn args = d.callScope fn args := by
  unfold Context.callScope
  rw [hs, hg]

section First

variable {l : Listener} {ls : List Listener} {pushed : List Activation} {d : Context}

theorem callListeners_builtin {fn : Builtin} {receiver : Option Value} (hl : l.callback = .builtin fn receiver) :
    callListeners event (l :: ls) { m.context none with pushed } = .ok () d ↔
      ∃ v e, callBuiltin fn receiver [] (m.context none) = .ok v e ∧
        callListeners event ls { ({ m with world := e.world } : Machine).context none with pushed } = .ok () d := by
  -- A built-in function does not look at the calls that were made before, and it makes none.
  have hoff : OffWorld fun c => { c with pushed } := ⟨fun _ => rfl, fun _ => rfl, fun _ _ => rfl⟩
  have hpushed := callBuiltin_commutes hoff fn receiver [] (m.context none)
  have hworld := callBuiltin_world fn receiver [] (m.context none)
  have hunfold : callListeners event (l :: ls) = (do let _ ← callBuiltin fn receiver []; callListeners event ls) := by
    rw [callListeners, hl]
    rfl
  rw [hunfold]
  cases hr : callBuiltin fn receiver [] (m.context none) with
  | error e c' =>
    rw [hr] at hpushed
    rw [bind_error hpushed]
    constructor
    · intro h
      cases h
    · rintro ⟨v, e, hv, -⟩
      cases hv
  | ok v e =>
    rw [hr] at hpushed hworld
    have he : { e with pushed } = { ({ m with world := e.world } : Machine).context none with pushed } := by
      rw [show e = _ from hworld]
      rfl
    rw [bind_ok hpushed]
    constructor
    · intro h
      exact ⟨v, e, rfl, he ▸ h⟩
    · rintro ⟨_, _, hv, h⟩
      cases hv
      exact (congrArg (callListeners event ls) he).trans h

theorem callListeners_script (hs : c.scoping = m.scoping) (hg : c.globals = m.stack.global.scope) {fn : FunctionDef}
    (hl : l.callback = .func fn) : callListeners event (l :: ls) { m.context none with pushed } =
      callListeners event ls { m.context none with pushed := l.call c event fn :: pushed } := by
  have hscope : ({ m.context none with pushed } : Context).callScope fn [] = c.callScope fn [] :=
    callScope_congr hs.symm hg.symm fn []
  rw [callListeners, hl, Listener.call, ← hscope]
  rfl

end First

/-- Calling listeners runs the built-in callbacks in turn, and makes calls for the others. -/
theorem callListeners_ok (hs : c.scoping = m.scoping) (hg : c.globals = m.stack.global.scope) (event : String)
    (ls : List Listener) (pushed : List Activation) (d : Context) :
    callListeners event ls { m.context none with pushed } = .ok () d ↔
      (∀ l ∈ ls.filter (! ·.isBuiltin), (l.call? c event).isSome = true) ∧
      ∃ k, InTurn event c (ls.filter (·.isBuiltin)) m k ∧ d = { k.context none with
        pushed := ((ls.filter (! ·.isBuiltin)).filterMap (·.call? c event)).reverse ++ pushed } := by
  induction ls generalizing m pushed with
  | nil =>
    constructor
    · intro h
      cases h
      exact ⟨by simp, m, .nil m, rfl⟩
    · rintro ⟨-, k, hk, rfl⟩
      cases hk
      rfl
  | cons l ls ih =>
    cases hl : l.callback with
    | builtin fn receiver =>
      have hb : l.isBuiltin = true := by rw [Listener.isBuiltin, hl]
      rw [callListeners_builtin hl]
      simp only [List.filter_cons, hb, Bool.not_true, Bool.false_eq_true, ↓reduceIte]
      constructor
      · rintro ⟨v, e, hr, h⟩
        obtain ⟨hall, k, hk, hd⟩ := (ih (m := { m with world := e.world }) hs hg pushed).1 h
        exact ⟨hall, k, .builtin hl hr hk, hd⟩
      · rintro ⟨hall, k, hk, hd⟩
        cases hk with
        | script hx => rw [hl] at hx; cases hx
        | @builtin _ _ _ _ _ _ v e hx hr hk =>
          rw [hl] at hx
          cases hx
          exact ⟨v, e, hr, (ih (m := { m with world := e.world }) hs hg pushed).2 ⟨hall, k, hk, hd⟩⟩
    | func fn =>
      have hb : l.isBuiltin = false := by rw [Listener.isBuiltin, hl]
      have hcall : l.call? c event = some (l.call c event fn) := by rw [Listener.call?, hl]
      rw [callListeners_script hs hg hl, ih hs hg]
      simp only [List.filter_cons, hb, Bool.not_false, Bool.false_eq_true, ↓reduceIte, List.filterMap_cons_some hcall,
        List.reverse_cons, List.append_assoc, List.singleton_append, List.forall_mem_cons, hcall, Option.isSome_some,
        true_and]
    | _ =>
      have hb : l.isBuiltin = false := by rw [Listener.isBuiltin, hl]
      have hcall : l.call? c event = none := by rw [Listener.call?, hl]
      constructor
      · intro h
        rw [callListeners, hl] at h
        cases h
      · rintro ⟨hall, -⟩
        have hl := hall l (by simp [hb])
        rw [hcall] at hl
        cases hl

/-- Built-in callbacks change nothing but the world. -/
theorem InTurn.of_builtins {ls : List Listener} (h : InTurn event c ls m n) (hb : ∀ l ∈ ls, l.isBuiltin = true) :
    n = { m with world := n.world } := by
  induction h with
  | nil m => rfl
  | builtin _ _ _ ih => exact ih (List.forall_mem_cons.1 hb).2
  | script hx =>
    have hl := (List.forall_mem_cons.1 hb).1
    rw [Listener.isBuiltin, hx] at hl
    cases hl

/-- The machine with nothing to do. -/
def quiet (m : Machine) : Machine := { m with stack := ⟨⟨m.stack.global.scope, []⟩, []⟩, finished := false }

/-- The event is handled: `x` is the machine at the first moment after the event was fired when all calls that it brought
about are gone, and there was no error. -/
def Handles (m : Machine) (node : Nat) (event : String) (x : Machine) : Prop :=
  ∃ u : Stage, Returns m.stack.depth (m.perform (.fire node event)).stage u ∧ u.machine = x ∧ x.error = none

theorem isEmpty_queue_of_call? {l : Listener} {a : Activation} (h : l.call? c event = some a) :
    a.queue.isEmpty = false := by
  unfold Listener.call? at h
  split at h
  · cases h
    rfl
  · cases h

/-- A built-in callback that fails stops the machine for good. -/
theorem callAll_stops {e : RuntimeError} {d : Context} {ls : List Listener} {j : Nat} {u : Stage}
    (hr : callListeners event ls.reverse (m.context none) = .error e d)
    (h : Returns j (m.callAll event ls).stage u) : u.machine.error = some e := by
  rw [callAll_error hr] at h
  rw [h.of_finished rfl]
  rfl

section Fired

variable {ls : List Listener}

/-- The calls of the callbacks that are functions of the script. -/
def scriptCalls (c : Context) (event : String) (ls : List Listener) : List Activation :=
  (ls.filter (! ·.isBuiltin)).filterMap (·.call? c event)

/-- The listeners are called last to first. -/
theorem callListeners_reverse (hs : c.scoping = m.scoping) (hg : c.globals = m.stack.global.scope) (d : Context) :
    callListeners event ls.reverse (m.context none) = .ok () d ↔
    (∀ l ∈ ls.filter (! ·.isBuiltin), (l.call? c event).isSome = true) ∧
    ∃ k, InTurn event c (ls.filter (·.isBuiltin)).reverse m.quiet k ∧
      d = { k.context none with pushed := scriptCalls c event ls } := by
  have h := callListeners_ok (m := m.quiet) hs hg event ls.reverse [] d
  simp only [List.filter_reverse, List.filterMap_reverse, List.reverse_reverse, List.append_nil, List.mem_reverse] at h
  exact h

theorem quiet_of_builtins {k : Machine} (h : InTurn event c (ls.filter (·.isBuiltin)).reverse m.quiet k) :
    k = { m.quiet with world := k.world } :=
  h.of_builtins fun _ hl => (List.mem_filter.1 (List.mem_reverse.1 hl)).2

/-- The calls stand above those that the event interrupts. -/
theorem callAll_eq {k : Machine} (hk : InTurn event c (ls.filter (·.isBuiltin)).reverse m.quiet k)
    (hr : callListeners event ls.reverse (m.context none) =
      .ok () { k.context none with pushed := scriptCalls c event ls }) :
    m.callAll event ls = k.above (scriptCalls c event ls ++ m.stack.calls) m.stack.global.queue := by
  rw [callAll_ok hr, quiet_of_builtins hk]
  rfl

theorem idle_of_builtins (he : m.error = none) {k : Machine}
    (h : InTurn event c (ls.filter (·.isBuiltin)).reverse m.quiet k) : k.Idle := by
  rw [quiet_of_builtins h]
  exact ⟨⟨rfl, he⟩, rfl⟩

theorem scriptCalls_queue : ∀ a ∈ scriptCalls c event ls, a.queue.isEmpty = false := by
  intro a ha
  obtain ⟨l, -, hl⟩ := List.mem_filterMap.1 ha
  exact isEmpty_queue_of_call? hl

theorem inTurn_effectOrder : InTurn event c (effectOrder ls) m n ↔
    ∃ k, InTurn event c (ls.filter (·.isBuiltin)).reverse m k ∧
      (∀ l ∈ ls.filter (! ·.isBuiltin), (l.call? c event).isSome = true) ∧
      CallsInTurn (scriptCalls c event ls) k n := by
  have hscripts (k : Machine) : InTurn event c (ls.filter (! ·.isBuiltin)) k n ↔ _ :=
    inTurn_scripts fun _ hl => by simpa using (List.mem_filter.1 hl).2
  rw [effectOrder, inTurn_append]
  simp only [hscripts]
  rfl

/-- **An event is handled** by the callbacks of its listeners in turn. -/
theorem callAll_handled (he : m.error = none) (hs : c.scoping = m.scoping) (hg : c.globals = m.stack.global.scope)
    (x : Machine) :
    (∃ u : Stage, Returns m.stack.depth (m.callAll event ls).stage u ∧ u.machine = x ∧ x.error = none) ↔
      ∃ n, InTurn event c (effectOrder ls) m.quiet n ∧ x = n.above m.stack.calls m.stack.global.queue := by
  constructor
  · rintro ⟨u, hu, rfl, hx⟩
    cases hr : callListeners event ls.reverse (m.context none) with
    | error e d =>
      rw [callAll_stops hr hu] at hx
      cases hx
    | ok _ d =>
      obtain ⟨hall, k, hk, rfl⟩ := (callListeners_reverse hs hg d).1 hr
      rw [callAll_eq hk hr] at hu
      obtain ⟨n, hn, hun⟩ := CallsInTurn.of_returns (idle_of_builtins he hk) scriptCalls_queue hu
      exact ⟨n, inTurn_effectOrder.2 ⟨k, hk, hall, hn⟩, hun⟩
  · rintro ⟨n, hn, rfl⟩
    obtain ⟨k, hk, hall, hn⟩ := inTurn_effectOrder.1 hn
    have hidle := idle_of_builtins he hk
    have hr := (callListeners_reverse hs hg _).2 ⟨hall, k, hk, rfl⟩
    rw [callAll_eq hk hr]
    obtain ⟨u, hu, hun⟩ := hn.returns hidle scriptCalls_queue
    exact ⟨u, hu, hun, (hn.idle hidle).error⟩

end Fired

/-- **Listeners take effect in turn**, built-in ones first. On a machine without an error, whatever it is doing, an event
with listeners is fired. The event is handled without an error if and only if the callbacks can run in turn, in the order
of `effectOrder` and each of them alone, and then it does the same as they do. Of two listeners the one that was registered
first takes effect first if the other one is a function of the script, and last if that one is built-in. -/
theorem listeners_in_turn {m : Machine} (he : m.error = none) {node : Nat} {event : String}
    (hl : m.listenersFor node event ≠ []) :
    (∀ x, m.Handles node event x ↔
      ∃ n, InTurn event (m.context none) (effectOrder (m.listenersFor node event))
          (m.logFired event (m.listenersFor node event)).quiet n ∧
        x = n.above m.stack.calls m.stack.global.queue) ∧
    ∀ first second, [first, second].Sublist (m.listenersFor node event) →
      if second.isBuiltin then [second, first].Sublist (effectOrder (m.listenersFor node event))
      else [first, second].Sublist (effectOrder (m.listenersFor node event)) := by
  refine ⟨fun x => ?_, fun first second h => effectOrder_pair h⟩
  have hfire : m.perform (.fire node event) =
      (m.logFired event (m.listenersFor node event)).callAll event (m.listenersFor node event) := by
    show (m.fire node event).2.machine = _
    rw [fire_machine, if_neg]
    simp [he, hl]
  unfold Handles
  rw [hfire]
  obtain ⟨logs, hlogs⟩ := m.logFired_eq event (m.listenersFor node event)
  rw [hlogs]
  exact callAll_handled (m := { m with world := { m.world with logs } }) he rfl rfl x

/-- A function of the script before and after a built-in one, while the top level has work to do. -/
def mixedScript : String :=
  "let b = document.getElementById('b');\nfunction f() \x7b console.log('f'); ; \x7d\nb.addEventListener('click', f);\n" ++
    "b.addEventListener('click', console.warn);\nb.addEventListener('click', f);\nlet x = 1;"

/-- The built-in callback comes first, although it was registered in the middle. -/
theorem listeners_in_turn_mixedScript : ∃ m x n, load mixedScript (some buttonPage) .snapshot = .ok m ∧
    (m.performAll (.replicate 5 .step)).error = none ∧
    ((m.performAll (.replicate 5 .step)).listenersFor 0 "click").map (·.isBuiltin) = [false, true, false] ∧
    (m.performAll (.replicate 5 .step)).Handles 0 "click" x ∧
    x.messages .console = ["warning: ", "f", "f"] ∧
    InTurn "click" ((m.performAll (.replicate 5 .step)).context none)
      (effectOrder ((m.performAll (.replicate 5 .step)).listenersFor 0 "click"))
      ((m.performAll (.replicate 5 .step)).logFired "click"
        ((m.performAll (.replicate 5 .step)).listenersFor 0 "click")).quiet n ∧
    x = n.above (m.performAll (.replicate 5 .step)).stack.calls
      (m.performAll (.replicate 5 .step)).stack.global.queue := by
  have hrun : (load mixedScript (some buttonPage) .snapshot).toOption.any (fun m =>
      let n := m.performAll (.replicate 5 .step)
      n.error.isNone && (n.listenersFor 0 "click").map (·.isBuiltin) == [false, true, false] &&
        (Stage.returned? n.stack.depth 20 (n.perform (.fire 0 "click")).stage).any fun u =>
          u.machine.error.isNone && u.machine.messages .console == ["warning: ", "f", "f"]) = true := by
    decide +kernel
  obtain ⟨m, h, ht⟩ := exists_loaded hrun
  simp only [Bool.and_eq_true, beq_iff_eq, Option.isNone_iff_eq_none, Option.any_eq_true] at ht
  obtain ⟨⟨he, hl⟩, u, hu, hx, hmessages⟩ := ht
  have hne : (m.performAll (.replicate 5 .step)).listenersFor 0 "click" ≠ [] := fun hnil => by rw [hnil] at hl; cases hl
  have hhandles : (m.performAll (.replicate 5 .step)).Handles 0 "click" u.machine :=
    ⟨u, .of_returned? hu, rfl, hx⟩
  obtain ⟨n, hturn, hn⟩ := ((listeners_in_turn he hne).1 u.machine).1 hhandles
  exact ⟨m, u.machine, n, h, he, hl, hhandles, hmessages, hturn, hn⟩

/-- Two built-in listeners of one event. -/
def reversedScript : String :=
  "let b = document.getElementById('b');\nb.addEventListener('click', console.warn);\n" ++
    "b.addEventListener('click', console.error);"

/-- The level at which a listener writes to the console, if it is a method of the console. -/
def consoleLevel? (l : Listener) : Option ConsoleLevel :=
  match l.callback with
  | .builtin (.console level) _ => some level
  | _ => none

/-- The warning was registered first and the error second, and the error is written first. -/
theorem effects_not_in_registration_order : ∃ m x, load reversedScript (some buttonPage) .snapshot = .ok m ∧
    (m.performAll (.replicate 3 .step)).error = none ∧
    ((m.performAll (.replicate 3 .step)).listenersFor 0 "click").map (fun l => (l.id, consoleLevel? l)) =
      [(1, some .warn), (2, some .error)] ∧
    (m.performAll (.replicate 3 .step)).Handles 0 "click" x ∧
    x.messages .console = [ConsoleLevel.error.mark, ConsoleLevel.warn.mark] ∧
    x.messages .console ≠ [ConsoleLevel.warn.mark, ConsoleLevel.error.mark] := by
  have hrun : (load reversedScript (some buttonPage) .snapshot).toOption.any (fun m =>
      let n := m.performAll (.replicate 3 .step)
      n.error.isNone && (n.listenersFor 0 "click").map (fun l => (l.id, consoleLevel? l)) ==
          [(1, some ConsoleLevel.warn), (2, some ConsoleLevel.error)] &&
        (Stage.returned? n.stack.depth 10 (n.perform (.fire 0 "click")).stage).any fun u =>
          u.machine.error.isNone && u.machine.messages .console == ["error: ", "warning: "]) = true := by
    decide +kernel
  obtain ⟨m, h, ht⟩ := exists_loaded hrun
  simp only [Bool.and_eq_true, beq_iff_eq, Option.isNone_iff_eq_none, Option.any_eq_true] at ht
  obtain ⟨⟨he, hl⟩, u, hu, hx, hmessages⟩ := ht
  refine ⟨m, u.machine, h, he, hl, ⟨u, .of_returned? hu, rfl, hx⟩, hmessages, ?_⟩
  rw [hmessages]
  decide

end

end Machine

end Stepwise

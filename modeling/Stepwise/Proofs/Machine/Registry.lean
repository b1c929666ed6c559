import Stepwise.Proofs.Document.Changes
import Stepwise.Proofs.Machine.Held

/-!
# The registry of listeners

A listener is noted twice: in the registry of the machine, with a number, its target and its callback, and in the document,
where the element keeps the event. The document is otherwise changed by writing members and calling methods, which leave
these notes alone. Registering a listener either fails and changes nothing, or it extends both sides (`Eval.listen_cases`).
So on a page that starts without listeners the two sides agree after any sequence of commands, and the elements that the
machine holds stand in the document (`Machine.registry_agrees`).
-/

namespace Stepwise

/-! ## Events noted in the document -/

/-- The events that each element keeps. -/
def Document.records (d : Document) : List (List String) := d.elements.map (·.listeners)

theorem Element.listeners_set {e e' : Element} {name : String} {v : Value} (h : e.set name v = .ok e') :
    e'.listeners = e.listeners := by
  unfold Element.set at h
  split at h <;> cases h <;> rfl

theorem Element.listeners_call {e e' : Element} {name : String} {args : List Value} {v : Value}
    (h : e.call name args = .ok (v, e')) : e'.listeners = e.listeners := by
  unfold Element.call at h
  split at h <;> cases h <;> rfl

namespace Document

variable {d d' : Document}

theorem records_writeMember {handle : ElementHandle} {name : String} {v : Value}
    (h : d.writeMember handle name v = .ok d') : d'.records = d.records := by
  obtain ⟨e, e', he, hs, rfl⟩ := writeMember_replaces h
  exact map_replace (·.listeners) he (Element.listeners_set hs)

theorem records_call {node : Nat} {name : String} {args : List Value} {v : Value}
    (h : d.call node name args = .ok (v, d')) : d'.records = d.records := by
  obtain ⟨e, e', he, hc, rfl⟩ := call_replaces h
  exact map_replace (·.listeners) he (Element.listeners_call hc)

theorem records_callGlobal {name : String} {args : List Value} {v : Value} (h : d.callGlobal name args = .ok (v, d')) :
    d'.records = d.records := by
  unfold callGlobal at h
  split at h <;> cases h <;> rfl

theorem records_listen (d : Document) (node : Nat) (event : String) :
    (d.listen node event).records = d.records.modify node (· ++ [event]) := by
  unfold listen element?
  refine List.ext_getElem? fun k => ?_
  cases h : d.elements[node]? with
  | none =>
    by_cases hk : node = k
    · subst hk
      simp [records, h]
    · simp [records, hk]
  | some e =>
    obtain ⟨hlt, rfl⟩ := List.getElem?_eq_some_iff.1 h
    by_cases hk : node = k
    · subst hk
      simp [records, replace, hlt]
    · simp [records, replace, hk]

theorem node_of_mem_select {test : Element → Bool} {handle : ElementHandle} (h : handle ∈ d.select test) :
    handle.node < d.elements.length := by
  obtain ⟨⟨e, node⟩, hm, hs⟩ := List.mem_filterMap.1 h
  dsimp only at hs
  split at hs
  · cases hs
    have hlt := List.snd_lt_of_mem_zipIdx hm
    simpa [Document.handle] using hlt
  · cases hs

end Document

/-! ## The two sides agree -/

/-- The events of the listeners on an element, in the order of their registration. -/
def World.eventsOn (w : World) (node : Nat) : List String := (w.listeners.filter (·.target.node = node)).map (·.event)

/-- An element has its place among the first `nodes`. -/
def Value.OnPage (nodes : Nat) (v : Value) : Prop := ∀ handle, v = .element handle → handle.node < nodes

theorem Value.onPage_lax (nodes : Nat) : Value.Lax (Value.OnPage nodes) := fun _ _ he handle h => absurd h (he handle)

/-- The registry and the document, which has `nodes` elements and lends nothing, tell the same. -/
structure World.Agrees (nodes : Nat) (w : World) : Prop where
  page : ∃ d, w.document = some d ∧ d.lent = ∅ ∧ d.records = (List.range nodes).map w.eventsOn
  ids : w.listeners.map (·.id) = List.range' 1 w.listeners.length
  held : ∀ l ∈ w.listeners, ∀ v ∈ l.held, v.OnPage nodes

namespace World.Agrees

variable {nodes : Nat} {w : World}

theorem lent (h : w.Agrees nodes) : ∀ d ∈ w.document, d.lent = ∅ := by
  obtain ⟨d, hd, hl, -⟩ := h.page
  intro d' hd'
  rw [hd] at hd'
  cases hd'
  exact hl

theorem length (h : w.Agrees nodes) {d : Document} (hd : w.document = some d) : d.elements.length = nodes := by
  obtain ⟨d', hd', -, hr⟩ := h.page
  rw [hd] at hd'
  cases hd'
  simpa [Document.records] using congrArg List.length hr

theorem log (h : w.Agrees nodes) (entry : LogEntry) : (w.log entry).Agrees nodes := ⟨h.page, h.ids, h.held⟩

/-- A document with the same notes may take the place of the old one. -/
theorem of_document (h : w.Agrees nodes) {d d' : Document} (hd : w.document = some d) (hl : d'.lent = d.lent)
    (hr : d'.records = d.records) : World.Agrees nodes { w with document := some d' } := by
  obtain ⟨d₀, hd₀, hl₀, hr₀⟩ := h.page
  rw [hd] at hd₀
  cases hd₀
  exact ⟨⟨d', rfl, hl.trans hl₀, hr.trans hr₀⟩, h.ids, h.held⟩

theorem registered {c : Context} (h : c.world.Agrees nodes) {target : ElementHandle} (ht : target.node < nodes)
    {callback : Value} (hc : callback.Every (Value.OnPage nodes)) (event : String) :
    (c.registered target event callback).world.Agrees nodes := by
  obtain ⟨d, hd, hl, hr⟩ := h.page
  have hevents (k : Nat) : (c.registered target event callback).world.eventsOn k =
      if target.node = k then c.world.eventsOn k ++ [event] else c.world.eventsOn k := by
    by_cases hk : target.node = k <;> simp [Context.registered, World.eventsOn, List.filter_append, hk]
  refine ⟨⟨d.listen target.node event, ?_, (d.lent_listen _ _).trans hl, ?_⟩, ?_, ?_⟩
  · simp [Context.registered, hd]
  · rw [d.records_listen, hr]
    refine List.ext_getElem? fun k => ?_
    by_cases hk : k < nodes
    · by_cases ht : target.node = k <;> simp [hk, hevents, ht]
    · simp [hk]
  · simp [Context.registered, h.ids, List.range'_1_concat, Nat.add_comm]
  · refine List.forall_mem_append.2 ⟨h.held, ?_⟩
    simp only [List.mem_singleton, forall_eq, Listener.held, List.forall_mem_cons]
    exact ⟨fun handle he => by cases he; exact ht, hc⟩

end World.Agrees

/-- Elements are on the page, and the world agrees; nothing is asked of the work. -/
def registryParts (nodes : Nat) : Parts := ⟨Value.Every (Value.OnPage nodes), fun _ => True, World.Agrees nodes⟩

section Kept

variable {nodes : Nat} {line : Option Nat}

open Eval Value

theorem registry_page : ClosedPage ((registryParts nodes).OfContext line) (registryParts nodes).value := by
  have hfound {c : Context} {d : Document} {test : Element → Bool} {handle : ElementHandle}
      (hc : (registryParts nodes).OfContext line c) (hd : c.world.document = some d) (hh : handle ∈ d.select test) :
      (element handle).Every (OnPage nodes) := by
    refine every_element.2 fun other he => ?_
    cases he
    exact Nat.lt_of_lt_of_eq (Document.node_of_mem_select hh) (hc.world.length hd)
  exact {
    plain _ hv := every_of_isPlain (onPage_lax nodes) hv
    element hc hd hh := hfound hc hd hh
    elements test hc hd := by
      refine (every_list (onPage_lax nodes)).2 fun v hv => ?_
      obtain ⟨handle, hh, rfl⟩ := List.mem_map.1 hv
      exact hfound hc hd hh
    console hc := hc.of_world (hc.world.log _)
    member hc hd hr := by
      have hok := Document.callMember_ok hr
      have ⟨hv, hl⟩ := Document.call_ok hok
      exact ⟨every_of_isPlain (onPage_lax nodes) hv, hc.of_world (hc.world.of_document hd hl (Document.records_call hok))⟩
    called hc hd hr := by
      have ⟨hv, hl⟩ := Document.callGlobal_ok hr
      exact ⟨every_of_isPlain (onPage_lax nodes) hv,
        hc.of_world (hc.world.of_document hd hl (Document.records_callGlobal hr))⟩ }

theorem registry_listen {receiver : Option Value} (hr : ∀ v ∈ receiver, v.Every (OnPage nodes)) {args : List Value}
    (ha : ∀ v ∈ args, v.Every (OnPage nodes)) :
    Keeps ((registryParts nodes).OfContext line) (Eval.listen receiver args) (registryParts nodes).value := by
  intro c hc
  rcases Eval.listen_cases receiver args c with ⟨e, he⟩ | ⟨target, rfl, he⟩ <;> rw [he]
  · exact hc
  · have hpage : ClosedPage ((registryParts nodes).OfContext line) (Value.Every (OnPage nodes)) := registry_page
    have hcallback := hpage.argument ha 1
    have htarget : target.node < nodes := every_element.1 (hr _ rfl) target rfl
    exact ⟨hc.of_world (hc.world.registered htarget hcallback _), every_of_isPlain (onPage_lax nodes) rfl⟩

theorem registry_kept (nodes : Nat) : (registryParts nodes).Kept (fun _ => True) fun _ => True where
  plain _ hv := every_of_isPlain (onPage_lax nodes) hv
  predefined hw hv := Context.every_predefined? (onPage_lax nodes) hw.lent hv
  read _ ho hv := Context.every_readMember (onPage_lax nodes) ho hv
  write hw hd hr := hw.of_document hd (Document.lent_writeMember hr) (Document.records_writeMember hr)
  logged _ _ hw := hw.log _
  skipped _ _ hw := hw.log _
  builtin _ hf ha := registry_page.callBuiltin_keeps fun _ =>
    registry_listen ((every_builtin (onPage_lax nodes)).1 hf) ha
  callback hw hl := fun v hv => hw.held _ hl v (List.mem_cons_of_mem _ hv)
  body _ := trivial
  function _ := every_func.2 nofun
  declared _ := every_func.2 nofun

theorem registry_invariant (nodes : Nat) : Machine.Invariant (registryParts nodes).OfStack :=
  (registry_kept nodes).invariant trivial (fun _ _ => trivial) (fun _ _ => trivial) fun {_ unit _ _} hl _ _ =>
    (unit.run_keeps ((registry_kept nodes).closed hl) 0 fun _ _ => trivial).mono fun _ _ _ _ => trivial

end Kept

namespace Machine

/-- **The registry and the document agree.** Let a script be loaded on a page without listeners that lends nothing. Then
after any sequence of commands every element that the machine holds stands in the document, the listeners are numbered
from `1`, and each element of the document keeps the events of its listeners in the order of their registration. A
registration that fails changes nothing. -/
theorem registry_agrees {source : String} {page : Document} {scoping : Scoping} {m : Machine}
    (h : load source (some page) scoping = .ok m) (hl : page.lent = ∅) (hn : ∀ e ∈ page.elements, e.listeners = [])
    (commands : List Command) :
    (∃ d, (m.performAll commands).world.document = some d ∧
      (∀ handle, .element handle ∈ (m.performAll commands).held → (d.element? handle.node).isSome) ∧
      ∀ node e, d.element? node = some e → e.listeners = (m.performAll commands).world.eventsOn node) ∧
    (m.performAll commands).world.listeners.map (·.id) =
      List.range' 1 (m.performAll commands).world.listeners.length ∧
    ∀ receiver args c e c', Eval.callBuiltin .listen receiver args c = .error e c' → c' = c := by
  obtain ⟨program, -, -, rfl⟩ := load_ok h
  have hstart : World.Agrees page.elements.length ⟨[], [], some page⟩ := by
    refine ⟨⟨page, rfl, hl, List.ext_getElem (by simp [Document.records]) fun k hk _ => ?_⟩, rfl, by simp⟩
    simpa [Document.records, World.eventsOn] using hn _ (List.getElem_mem _)
  have hrun := (registry_invariant page.elements.length).performAll commands
    (m := ofProgram program program.findings scoping (some page))
    ⟨⟨Parts.OfScope.empty, trivial⟩, by simp [ofProgram, Stack.start], hstart⟩
  have hworld : World.Agrees page.elements.length _ := hrun.world
  obtain ⟨d, hd, -, hr⟩ := hworld.page
  refine ⟨⟨d, hd, fun handle hh => ?_, fun node e he => ?_⟩, hworld.ids, fun receiver args c e c' hc => ?_⟩
  · have honPage : (Value.element handle).OnPage page.elements.length := by
      rcases List.mem_append.1 hh with hh | hh
      · exact hrun.held (fun _ hv => hv) _ hh
      · obtain ⟨l, hl, hh⟩ := List.mem_flatMap.1 hh
        exact hworld.held l hl _ hh
    have hlt : handle.node < d.elements.length := Nat.lt_of_lt_of_eq (honPage handle rfl) (hworld.length hd).symm
    simp [Document.element?, hlt]
  · have hnode : d.records[node]? = some e.listeners := by
      simp only [Document.records, List.getElem?_map, Option.map_eq_some_iff]
      exact ⟨e, he, rfl⟩
    rw [hr, List.getElem?_map] at hnode
    obtain ⟨k, hk, hnode⟩ := Option.map_eq_some_iff.1 hnode
    obtain ⟨hlt, rfl⟩ := List.getElem?_eq_some_iff.1 hk
    simpa using hnode.symm
  · rcases Eval.listen_cases receiver args c with ⟨e', he⟩ | ⟨target, rfl, he⟩
    · exact (EStateM.Result.error.inj (he.symm.trans hc)).2.symm
    · rw [Eval.callBuiltin, he] at hc
      cases hc

/-- A page with two buttons. -/
def twoButtons : Document :=
  { Document.empty with elements := [⟨some "a", "button", [], ∅, ∅, []⟩, ⟨some "b", "button", [], ∅, ∅, []⟩] }

/-- Registers listeners through a list and through a bound function, one of them while an event is handled. The last
registration fails. -/
def registeringScript : String :=
  "var all = document.querySelectorAll('button');\nvar on = all[1].addEventListener;\n" ++
  "function f(x) \x7b on('focus', f); \x7d\non('click', f);\nall[0].addEventListener('click', f);\n" ++
  "all[0].addEventListener('click', 1);"

/-- Three listeners are registered on two elements before the run fails. -/
theorem registry_agrees_registeringScript : ∃ m, load registeringScript (some twoButtons) .snapshot = .ok m ∧
    twoButtons.lent = ∅ ∧ (∀ e ∈ twoButtons.elements, e.listeners = []) ∧
    (let n := m.performAll [.step, .step, .step, .step, .step, .fireById "b" "click", .step, .step]
    n.error.isSome ∧ n.world.listeners.map (fun l => (l.target.node, l.event)) = [(1, "click"), (0, "click"), (1, "focus")] ∧
    (∃ d, n.world.document = some d ∧ (∀ handle, .element handle ∈ n.held → (d.element? handle.node).isSome) ∧
      ∀ node e, d.element? node = some e → e.listeners = n.world.eventsOn node) ∧
    n.world.listeners.map (·.id) = List.range' 1 n.world.listeners.length) := by
  have hrun : (load registeringScript (some twoButtons) .snapshot).toOption.any (fun m =>
      let n := m.performAll [.step, .step, .step, .step, .step, .fireById "b" "click", .step, .step]
      n.error.isSome &&
        decide (n.world.listeners.map (fun l => (l.target.node, l.event)) = [(1, "click"), (0, "click"), (1, "focus")])) =
      true := by decide +kernel
  obtain ⟨m, h, hm⟩ := exists_loaded hrun
  have hn : ∀ e ∈ twoButtons.elements, e.listeners = [] := by decide
  obtain ⟨herror, hlisteners⟩ := Bool.and_eq_true_iff.1 hm
  have hagrees := registry_agrees h rfl hn [.step, .step, .step, .step, .step, .fireById "b" "click", .step, .step]
  exact ⟨m, h, rfl, hn, herror, of_decide_eq_true hlisteners, hagrees.1, hagrees.2.1⟩

end Machine

end Stepwise

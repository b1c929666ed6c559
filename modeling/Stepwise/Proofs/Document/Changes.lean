import Stepwise.Proofs.Machine.Keeps

/-!
# Changes of a document

A written member and a called method each replace one element of the document (`Document.writeMember_replaces`,
`Document.call_replaces`), so what such a replacement leaves alone is the same for all elements (`Document.map_replace`).
No change reaches the values that the page lends, and methods give plain values.
-/

namespace Stepwise

namespace Document

variable {d d' : Document}

theorem existing_ok {node : Nat} {e : Element} (h : d.existing node = .ok e) : d.elements[node]? = some e := by
  unfold existing at h
  split at h
  · rename_i e' he
    cases h
    exact he
  · cases h

/-- Writing a property changes one element. -/
theorem set_replaces {node : Nat} {name : String} {v : Value} (h : d.set node name v = .ok d') :
    ∃ e e', d.elements[node]? = some e ∧ e.set name v = .ok e' ∧ d' = d.replace node e' := by
  unfold set at h
  cases he : d.existing node with
  | error e => rw [he] at h; cases h
  | ok e =>
    rw [he] at h
    cases hs : e.set name v with
    | error err => simp only [bind, Except.bind, hs] at h; cases h
    | ok e' =>
      simp only [bind, Except.bind, hs] at h
      cases h
      exact ⟨e, e', existing_ok he, hs, rfl⟩

/-- A written member changes one element. -/
theorem writeMember_replaces {handle : ElementHandle} {name : String} {v : Value}
    (h : d.writeMember handle name v = .ok d') : ∃ e e', d.elements[handle.node]? = some e ∧ e.set name v = .ok e' ∧
      d' = d.replace handle.node e' := by
  unfold writeMember at h
  split at h
  · cases h
  · cases hs : d.set handle.node name v with
    | error err => rw [hs] at h; cases h
    | ok d'' =>
      rw [hs] at h
      cases h
      exact set_replaces hs

/-- A method changes one element. -/
theorem call_replaces {node : Nat} {name : String} {args : List Value} {v : Value}
    (h : d.call node name args = .ok (v, d')) : ∃ e e', d.elements[node]? = some e ∧ e.call name args = .ok (v, e') ∧
      d' = d.replace node e' := by
  unfold call at h
  cases he : d.existing node with
  | error e => rw [he] at h; cases h
  | ok e =>
    rw [he] at h
    cases hc : e.call name args with
    | error err => simp only [bind, Except.bind, hc] at h; cases h
    | ok r =>
      simp only [bind, Except.bind, hc] at h
      cases h
      exact ⟨e, r.2, existing_ok he, hc, rfl⟩

/-- A view of the elements that a replacement leaves alone. -/
theorem map_replace {β : Type} (view : Element → β) {node : Nat} {e e' : Element} (h : d.elements[node]? = some e)
    (he : view e' = view e) : (d.replace node e').elements.map view = d.elements.map view := by
  refine List.ext_getElem? fun k => ?_
  simp only [replace, List.getElem?_map, List.getElem?_set]
  split
  · rename_i hk
    subst hk
    obtain ⟨hlt, rfl⟩ := List.getElem?_eq_some_iff.1 h
    simp [hlt, he]
  · rfl

/-! ## What the page lends, and what its methods give -/

theorem lent_writeMember {handle : ElementHandle} {name : String} {v : Value}
    (h : d.writeMember handle name v = .ok d') : d'.lent = d.lent := by
  obtain ⟨_, _, -, -, rfl⟩ := writeMember_replaces h
  rfl

theorem lent_listen (d : Document) (node : Nat) (event : String) : (d.listen node event).lent = d.lent := by
  unfold listen
  split <;> rfl

/-- Methods of elements give plain values. -/
theorem call_ok {node : Nat} {name : String} {args : List Value} {v : Value}
    (h : d.call node name args = .ok (v, d')) : v.isPlain ∧ d'.lent = d.lent := by
  obtain ⟨e, e', -, hc, rfl⟩ := call_replaces h
  refine ⟨?_, rfl⟩
  unfold Element.call at hc
  split at hc <;> cases hc <;> try rfl
  cases e.attributes.get? (argumentText args 0) <;> rfl

theorem callMember_ok {handle : ElementHandle} {name : String} {args : List Value} {r : Value × Document}
    (h : d.callMember handle name args = .ok r) : d.call handle.node name args = .ok r := by
  unfold callMember at h
  cases hr : d.call handle.node name args with
  | error e => rw [hr] at h; cases h
  | ok r' => rw [hr] at h; cases h; rfl

theorem callGlobal_ok {name : String} {args : List Value} {v : Value}
    (h : d.callGlobal name args = .ok (v, d')) : v.isPlain ∧ d'.lent = d.lent := by
  unfold callGlobal at h
  split at h <;> cases h <;> try exact ⟨rfl, rfl⟩
  refine ⟨?_, rfl⟩
  cases d.answers.head? <;> rfl

end Document

end Stepwise

import Stepwise.Proofs.Machine.Frames

/-!
# What a machine holds

The values that a machine holds are those in its scopes and in its listeners, with everything inside them: the items of
lists, and the values that functions of the page are bound to (`Machine.held`). Functions of the script and elements
come from two places only, from the evaluation of a function and from a search of the document. So a predicate that asks
nothing of other values (`Value.Lax`) holds of all that reading names and members gives, if the page lends nothing.
-/

namespace Stepwise

namespace Value

/-! ## Values inside values -/

mutual

/-- A value and everything inside it. -/
def inside : Value → List Value
  | undefined => [undefined]
  | null => [null]
  | bool b => [bool b]
  | num x => [num x]
  | str s => [str s]
  | list items => list items :: listInside items
  | func fn => [func fn]
  | builtin fn receiver => builtin fn receiver :: optionInside receiver
  | host object => [host object]
  | element handle => [element handle]

def listInside : List Value → List Value
  | [] => []
  | v :: vs => v.inside ++ listInside vs

def optionInside : Option Value → List Value
  | none => []
  | some v => v.inside

end

/-- A value and everything inside it has `P`. -/
def Every (P : Value → Prop) (v : Value) : Prop := ∀ u ∈ v.inside, P u

/-- `P` asks for nothing but functions of the script and elements. -/
def Lax (P : Value → Prop) : Prop := ∀ v, (∀ fn, v ≠ func fn) → (∀ handle, v ≠ element handle) → P v

theorem mem_listInside {u : Value} {items : List Value} : u ∈ listInside items ↔ ∃ v ∈ items, u ∈ v.inside := by
  induction items with
  | nil => simp [listInside]
  | cons v vs ih => simp [listInside, ih]

section Every

variable {P : Value → Prop}

theorem every_func {fn : FunctionDef} : (func fn).Every P ↔ P (func fn) := by simp [Every, inside]

theorem every_element {handle : ElementHandle} : (element handle).Every P ↔ P (element handle) := by
  simp [Every, inside]

theorem every_of_isPlain (hP : Lax P) {v : Value} (h : v.isPlain) : v.Every P := by
  cases v with
  | list _ | func _ | builtin _ _ | host _ | element _ => cases h
  | _ => exact fun u hu => by cases List.mem_singleton.1 hu; exact hP _ nofun nofun

theorem every_list (hP : Lax P) {items : List Value} : (list items).Every P ↔ ∀ v ∈ items, v.Every P := by
  constructor
  · exact fun h v hv u hu => h u (List.mem_cons_of_mem _ (mem_listInside.2 ⟨v, hv, hu⟩))
  · intro h u hu
    rcases List.mem_cons.1 hu with rfl | hu
    · exact hP _ nofun nofun
    · obtain ⟨v, hv, hu⟩ := mem_listInside.1 hu
      exact h v hv u hu

theorem every_builtin (hP : Lax P) {fn : Builtin} {receiver : Option Value} :
    (builtin fn receiver).Every P ↔ ∀ v ∈ receiver, v.Every P := by
  constructor
  · rintro h v rfl
    exact fun u hu => h u (List.mem_cons_of_mem _ hu)
  · intro h u hu
    rcases List.mem_cons.1 hu with rfl | hu
    · exact hP _ nofun nofun
    · cases receiver with
      | none => cases hu
      | some v => exact h v rfl u hu

theorem every_host (hP : Lax P) {object : HostObject} : (host object).Every P := fun u hu => by
  cases List.mem_singleton.1 hu
  exact hP _ nofun nofun

mutual

/-- Data is made of plain values and lists. -/
theorem every_ofData (hP : Lax P) : ∀ data : Json, (ofData data).Every P
  | .null | .bool _ | .int _ | .float _ | .str _ | .obj _ => every_of_isPlain hP rfl
  | .arr items => (every_list hP).2 (every_ofDataList hP items)

theorem every_ofDataList (hP : Lax P) : ∀ items : List Json, ∀ v ∈ ofDataList items, v.Every P
  | [] => by simp [ofDataList]
  | data :: items => List.forall_mem_cons.2 ⟨every_ofData hP data, every_ofDataList hP items⟩

end

end Every

end Value

/-! ## What is read -/

section Read

variable {P : Value → Prop}

open Value

theorem indexed?_mem {α : Type} {items : List α} {key : String} {a : α} (h : indexed? items key = some a) :
    a ∈ items := by
  unfold indexed? at h
  obtain ⟨n, -, hn⟩ := Option.bind_eq_some_iff.1 h
  exact List.mem_of_getElem? hn

theorem Element.every_get (hP : Lax P) {e : Element} {name : String} {v : Value} (h : e.get name = .value v) : v.Every P := by
  unfold Element.get at h
  split at h
  · cases h; exact every_ofData hP _
  · split at h <;> try (cases h; exact every_of_isPlain hP rfl)
    split at h <;> cases h

theorem Document.every_readMember (hP : Lax P) (d : Document) {handle : ElementHandle} (hh : P (element handle))
    (name : String) : (d.readMember handle name).Every P := by
  have hbound (fn : Builtin) : (builtin fn (some (element handle))).Every P :=
    (every_builtin hP).2 fun v hv => by cases hv; exact every_element.2 hh
  unfold Document.readMember
  split
  · exact hbound _
  · unfold Document.get
    split
    · rename_i v hv
      split at hv
      · exact Element.every_get hP hv
      · cases hv
    · exact hbound _
    · exact every_of_isPlain hP rfl

theorem Document.every_global? (hP : Lax P) {d : Document} (hd : d.lent = ∅) {name : String} {v : Value}
    (h : d.global? name = some v) : v.Every P := by
  unfold Document.global? at h
  rw [hd] at h
  dsimp only [NameMap.get?_empty] at h
  split at h
  · cases h; exact (every_builtin hP).2 nofun
  · obtain ⟨data, -, rfl⟩ := Option.map_eq_some_iff.1 h
    exact every_ofData hP data

theorem Context.every_predefined? (hP : Lax P) {c : Context} (hd : ∀ d ∈ c.world.document, d.lent = ∅) {name : String}
    {v : Value} (h : c.predefined? name = some v) : v.Every P := by
  unfold Context.predefined? at h
  split at h <;> try (cases h; first | exact every_of_isPlain hP rfl | exact every_host hP)
  split at h
  · cases h
  · rename_i d hc
    split at h
    · cases h; exact every_host hP
    · exact Document.every_global? hP (hd d hc) h

theorem Context.every_readMember (hP : Lax P) {c : Context} {o v : Value} {key : String} (ho : o.Every P)
    (hv : c.readMember o key = .ok v) : v.Every P := by
  have hfn (fn? : Option Builtin) : ((fn?.map (builtin · none)).getD undefined).Every P := by
    cases fn? with
    | none => exact every_of_isPlain hP rfl
    | some fn => exact (every_builtin hP).2 nofun
  unfold Context.readMember at hv
  split at hv
  · cases hv
  · cases hv
  · cases hv; exact hfn _
  · cases hv; exact hfn _
  · split at hv <;> cases hv
    · exact Document.every_readMember hP _ (every_element.1 ho) _
    · exact every_of_isPlain hP rfl
  · split at hv <;> cases hv
    · exact every_of_isPlain hP rfl
    · rename_i items _
      cases hi : indexed? items key with
      | none => exact every_of_isPlain hP rfl
      | some w => exact (every_list hP).1 ho w (indexed?_mem hi)
  · dsimp only at hv
    split at hv <;> cases hv
    · exact every_of_isPlain hP rfl
    · rename_i s _
      cases indexed? (Text.units s) key <;> exact every_of_isPlain hP rfl
  · split at hv <;> cases hv <;> exact every_of_isPlain hP rfl
  · cases hv; exact every_of_isPlain hP rfl

end Read

/-! ## Machines -/

def Scope.held (s : Scope) : List Value := s.values.entries.flatMap fun e => e.2.inside

def Stack.held (s : Stack) : List Value := (s.global :: s.calls.map (·.toFrame)).flatMap fun f => f.scope.held

/-- A listener holds its target and its callback. -/
def Listener.held (l : Listener) : List Value := .element l.target :: l.callback.inside

namespace Machine

/-- Everything that a machine holds. -/
def held (m : Machine) : List Value := m.stack.held ++ m.world.listeners.flatMap (·.held)

/-- The work in all queues. -/
def queued (m : Machine) : List Work := (m.stack.global :: m.stack.calls.map (·.toFrame)).flatMap fun f => f.queue

end Machine

namespace Parts

variable {R : Parts} {P : Value → Prop} {stack : Stack} {w : World}

theorem OfStack.frame (h : R.OfStack stack w) {f : Frame} (hf : f ∈ stack.global :: stack.calls.map (·.toFrame)) :
    R.OfFrame f := by
  rcases List.mem_cons.1 hf with rfl | hf
  · exact h.global
  · obtain ⟨a, ha, rfl⟩ := List.mem_map.1 hf
    exact h.calls a ha

theorem OfStack.held (h : R.OfStack stack w) (hv : ∀ v, R.value v → v.Every P) : ∀ u ∈ stack.held, P u := by
  intro u hu
  obtain ⟨f, hf, hu⟩ := List.mem_flatMap.1 hu
  obtain ⟨e, he, hu⟩ := List.mem_flatMap.1 hu
  exact hv _ ((h.frame hf).scope e he) u hu

end Parts

end Stepwise

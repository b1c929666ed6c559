import Stepwise.Machine.Context

/-!
# Scopes and copies of scopes

* **Names**: which names are bound after a declaration or an assignment, and which scope these go to
  (`Context.declare_local`, `Context.assign_global`, …).
* **`Scope.laidOver`**: a scope laid over another one. This is what the scope of a call is in snapshot scoping, if the
  other one is the global scope and has not changed since the call was made. Declarations, parameters and assignments to
  bound names may be done before or after the scope is laid over (`laidOver_declare`, `laidOver_bindParams`,
  `laidOver_assign`).
-/

namespace Stepwise

/-! ## Maps from names -/

namespace NameMap

variable {α : Type}

@[simp] theorem contains_insert (m : NameMap α) (name other : String) (value : α) :
    (m.insert name value).contains other = (other == name || m.contains other) := by
  unfold contains
  rw [get?_insert]
  split <;> simp_all

theorem lookup_eq_none {name : String} {entries : List (String × α)} (h : ∀ e ∈ entries, name < e.1) :
    entries.lookup name = none := by
  refine List.lookup_eq_none_iff.2 fun e he => ?_
  have hne : name ≠ e.1 := fun heq => String.lt_irrefl e.1 (heq ▸ h e he)
  simpa using hne

/-- The first of two sorted lists that bind the same names does not start before the second. -/
theorem not_lt_of_lookup {n n' : String} {v v' : α} {rest rest' : List (String × α)}
    (hs : ((n', v') :: rest').Pairwise (·.1 < ·.1))
    (h : ((n, v) :: rest).lookup n = ((n', v') :: rest').lookup n) : ¬ n < n' := by
  intro hlt
  have hnone : ((n', v') :: rest').lookup n = none := by
    refine lookup_eq_none (List.forall_mem_cons.2 ⟨hlt, fun e he => ?_⟩)
    exact String.lt_trans hlt ((List.pairwise_cons.1 hs).1 e he)
  rw [hnone, lookup_entry, if_pos rfl] at h
  cases h

theorem entries_ext : ∀ {entries entries' : List (String × α)}, entries.Pairwise (·.1 < ·.1) →
    entries'.Pairwise (·.1 < ·.1) → (∀ name, entries.lookup name = entries'.lookup name) → entries = entries'
  | [], [], _, _, _ => rfl
  | [], (n, v) :: _, _, _, h => by have hn := h n; rw [lookup_entry, if_pos rfl] at hn; cases hn
  | (n, v) :: _, [], _, _, h => by have hn := h n; rw [lookup_entry, if_pos rfl] at hn; cases hn
  | (n, v) :: rest, (n', v') :: rest', hs, hs', h => by
    have hle := String.not_lt.1 (not_lt_of_lookup hs' (h n))
    have hge := String.not_lt.1 (not_lt_of_lookup hs (h n').symm)
    obtain rfl : n = n' := String.le_antisymm hge hle
    have hv := h n
    rw [lookup_entry, lookup_entry, if_pos rfl, if_pos rfl] at hv
    cases hv
    obtain ⟨hfirst, hs⟩ := List.pairwise_cons.1 hs
    obtain ⟨hfirst', hs'⟩ := List.pairwise_cons.1 hs'
    have hrest (name : String) : rest.lookup name = rest'.lookup name := by
      by_cases hn : name = n
      · rw [hn, lookup_eq_none hfirst, lookup_eq_none hfirst']
      · have hname := h name
        rwa [lookup_entry, lookup_entry, if_neg hn, if_neg hn] at hname
    rw [entries_ext hs hs' hrest]

/-- Maps with the same values are equal. -/
@[ext] theorem ext {m n : NameMap α} (h : ∀ name, m.get? name = n.get? name) : m = n := by
  obtain ⟨entries, sorted⟩ := m
  obtain ⟨entries', sorted'⟩ := n
  cases entries_ext sorted sorted' h
  rfl

/-- The entries of `m` in place of those of `base`. -/
def laidOver (m base : NameMap α) : NameMap α := m.entries.foldr (fun e acc => acc.insert e.1 e.2) base

@[simp] theorem get?_laidOver (m base : NameMap α) (name : String) :
    (m.laidOver base).get? name = (m.get? name).or (base.get? name) := by
  show (m.entries.foldr (fun e acc => acc.insert e.1 e.2) base).get? name = (m.entries.lookup name).or (base.get? name)
  induction m.entries with
  | nil => rfl
  | cons e rest ih =>
    obtain ⟨n, v⟩ := e
    rw [List.foldr_cons, get?_insert, lookup_entry]
    split
    · rfl
    · exact ih

theorem laidOver_insert (m base : NameMap α) (name : String) (value : α) :
    (m.insert name value).laidOver base = (m.laidOver base).insert name value := by
  ext1 other
  rw [get?_laidOver, get?_insert, get?_insert, get?_laidOver]
  split <;> rfl

end NameMap

/-! ## Scopes -/

namespace Scope

@[simp] theorem has_declare (s : Scope) (name other : String) (kind : BindingKind) (v : Value) :
    (s.declare name kind v).has other = (other == name || s.has other) := NameMap.contains_insert ..

@[simp] theorem has_assign (s : Scope) (name other : String) (v : Value) :
    (s.assign name v).has other = (other == name || s.has other) := NameMap.contains_insert ..

/-- Every name that is bound has a note: none was only assigned to. -/
def Noted (s : Scope) : Prop := ∀ name, s.has name = true → (s.note? name).isSome = true

theorem Noted.empty : Noted empty := fun _ h => by cases h

theorem Noted.declare {s : Scope} (h : s.Noted) (name : String) (kind : BindingKind) (v : Value) :
    (s.declare name kind v).Noted := by
  intro other ho
  show ((s.notes.insert name _).get? other).isSome = true
  rw [NameMap.get?_insert]
  split
  · rfl
  · rename_i hne
    exact h other (by simpa [hne] using ho)

theorem Noted.bindParams {s : Scope} (h : s.Noted) (params : List String) (args : List Value) :
    (s.bindParams params args).Noted := by
  induction params generalizing s args with
  | nil => exact h
  | cons p ps ih => exact ih (h.declare p .param _) args.tail

/-- An assignment to a bound name leaves the kind of its note. -/
theorem assign_eq_declare {s : Scope} {name : String} {note : BindingNote} (h : s.note? name = some note) (v : Value) :
    s.assign name v = s.declare name note.kind v := by
  have h : s.notes.get? name = some note := h
  unfold assign declare
  rw [h]

theorem Noted.assign {s : Scope} (h : s.Noted) {name : String} (hn : s.has name = true) (v : Value) :
    (s.assign name v).Noted := by
  obtain ⟨note, hnote⟩ := Option.isSome_iff_exists.1 (h name hn)
  rw [assign_eq_declare hnote]
  exact h.declare name note.kind v

/-- The scope laid over another one. -/
def laidOver (s base : Scope) : Scope := ⟨s.values.laidOver base.values, s.notes.laidOver base.notes⟩

section Over

variable (s base : Scope)

theorem get?_laidOver (name : String) : (s.laidOver base).get? name = (s.get? name).or (base.get? name) :=
  NameMap.get?_laidOver ..

theorem note?_laidOver (name : String) : (s.laidOver base).note? name = (s.note? name).or (base.note? name) :=
  NameMap.get?_laidOver ..

theorem empty_laidOver : empty.laidOver base = base := rfl

theorem laidOver_declare (name : String) (kind : BindingKind) (v : Value) :
    (s.declare name kind v).laidOver base = (s.laidOver base).declare name kind v := by
  unfold laidOver declare
  rw [NameMap.laidOver_insert, NameMap.laidOver_insert]

theorem laidOver_bindParams (params : List String) (args : List Value) :
    (s.bindParams params args).laidOver base = (s.laidOver base).bindParams params args := by
  induction params generalizing s args with
  | nil => rfl
  | cons p ps ih =>
    rw [bindParams, bindParams, ih, laidOver_declare]

end Over

theorem has_laidOver {s : Scope} {name : String} (h : s.has name = true) (base : Scope) :
    (s.laidOver base).has name = true := by
  obtain ⟨v, hv⟩ := Option.isSome_iff_exists.1 h
  have hv : s.get? name = some v := hv
  show ((s.laidOver base).get? name).isSome = true
  rw [get?_laidOver, hv]
  rfl

/-- A name that was only assigned to would take the note of the scope below. -/
theorem laidOver_assign {s : Scope} (h : s.Noted) {name : String} (hn : s.has name = true) (base : Scope) (v : Value) :
    (s.assign name v).laidOver base = (s.laidOver base).assign name v := by
  obtain ⟨note, hnote⟩ := Option.isSome_iff_exists.1 (h name hn)
  have hover : (s.laidOver base).note? name = some note := by rw [note?_laidOver, hnote]; rfl
  rw [assign_eq_declare hnote, assign_eq_declare hover, laidOver_declare]

end Scope

/-! ## Which scope is written to -/

namespace Context

variable {c : Context} {s : Scope} {name : String}

theorem declare_local (hl : c.locals = some s) (name : String) (kind : BindingKind) (v : Value) :
    c.declare name kind v = { c with locals := some (s.declare name kind v) } := by
  simp only [declare, hl]

theorem declare_global (hl : c.locals = none) (name : String) (kind : BindingKind) (v : Value) :
    c.declare name kind v = { c with globals := c.globals.declare name kind v } := by
  simp only [declare, hl]

theorem assign_local (hl : c.locals = some s) (hn : s.has name = true) (v : Value) :
    c.assign name v = { c with locals := some (s.assign name v) } := by
  simp only [assign, hl, hn, ↓reduceIte]

/-- An assignment is to the global scope at the top level, and in a call that has no such variable. -/
theorem assign_global (hl : ∀ s, c.locals = some s → s.has name = false) (v : Value) :
    c.assign name v = { c with globals := c.globals.assign name v } := by
  unfold assign
  split
  · rename_i s hs
    rw [if_neg (Bool.eq_false_iff.1 (hl s hs))]
  · rfl

end Context

end Stepwise

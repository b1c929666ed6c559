import Stepwise.Proofs.Machine.Held
import Stepwise.Value.Json

/-!
# Values as data of a page

`Value.toData` stores a value as plain JSON and `Value.ofData` reads it back. Both have cases where something is lost:
what is no finite number is stored as its text, `undefined` as null, and an object or an integer is read as a value of
another kind. Everywhere else they are inverse to each other (`Value.Storable`, `Json.Loadable`).

**`Value.data_roundTrip`**: exactly the storable values are read back from their data, exactly the loadable data is
stored again as it was, and reading gives data only, however deep its lists are nested.
-/

namespace Stepwise

/-! ## What is kept -/

/-- Null, a truth value, a finite number, a string, or a list of such values. -/
inductive Value.Storable : Value → Prop where
  | null : Storable .null
  | bool (b : Bool) : Storable (.bool b)
  | num {x : Float} : x.isFinite = true → Storable (.num x)
  | str (s : String) : Storable (.str s)
  | list {items : List Value} : (∀ v ∈ items, v.Storable) → Storable (.list items)

/-- No object and no integer stands anywhere in the data, and its numbers are finite. -/
inductive Json.Loadable : Json → Prop where
  | null : Loadable .null
  | bool (b : Bool) : Loadable (.bool b)
  | float {x : Float} : x.isFinite = true → Loadable (.float x)
  | str (s : String) : Loadable (.str s)
  | arr {items : List Json} : (∀ j ∈ items, j.Loadable) → Loadable (.arr items)

/-- The kinds of values that data has: null, truth values, numbers, strings and lists. -/
def Value.isDatum : Value → Bool
  | null | bool _ | num _ | str _ | list _ => true
  | undefined | func _ | builtin .. | host _ | element _ => false

theorem isFinite_eq (x : Float) : x.isFinite = ! (x.isNaN || x.isInf) := by
  show x.toModel.unpack.isFinite = ! (x.toModel.unpack.isNaN || x.toModel.unpack.isInf)
  cases x.toModel.unpack <;> rfl

theorem Value.storable_num {x : Float} : (num x).Storable ↔ x.isFinite = true := by
  constructor
  · intro h
    cases h with
    | num hx => exact hx
  · exact .num

theorem Value.storable_list {items : List Value} : (list items).Storable ↔ ∀ v ∈ items, v.Storable := by
  constructor
  · intro h
    cases h with
    | list hitems => exact hitems
  · exact .list

theorem Json.loadable_float {x : Float} : (float x).Loadable ↔ x.isFinite = true := by
  constructor
  · intro h
    cases h with
    | float hx => exact hx
  · exact .float

theorem Json.loadable_arr {items : List Json} : (arr items).Loadable ↔ ∀ j ∈ items, j.Loadable := by
  constructor
  · intro h
    cases h with
    | arr hitems => exact hitems
  · exact .arr

namespace Value

/-- A finite number is stored as a number, and all others as texts. -/
theorem toData_num (x : Float) : (num x).toData = if x.isFinite then .float x else .str (numberText x) := by
  rw [toData, isFinite_eq]
  cases x.isNaN || x.isInf <;> rfl

/-! ## Reading what was stored -/

mutual

theorem ofData_toData : ∀ v : Value, ofData v.toData = v ↔ v.Storable
  | undefined => ⟨nofun, nofun⟩
  | null => ⟨fun _ => .null, fun _ => rfl⟩
  | bool b => ⟨fun _ => .bool b, fun _ => rfl⟩
  | num x => by
    rw [toData_num, storable_num]
    split
    · next hx => exact ⟨fun _ => hx, fun _ => rfl⟩
    · next hx => exact ⟨nofun, fun h => absurd h hx⟩
  | str s => ⟨fun _ => .str s, fun _ => rfl⟩
  | list items => by rw [toData, ofData, list.injEq, ofDataList_toDataList items, storable_list]
  | func _ => ⟨nofun, nofun⟩
  | builtin _ _ => ⟨nofun, nofun⟩
  | host _ => ⟨nofun, nofun⟩
  | element _ => ⟨nofun, nofun⟩
termination_by structural v => v

theorem ofDataList_toDataList : ∀ items : List Value, ofDataList (toDataList items) = items ↔ ∀ v ∈ items, v.Storable
  | [] => by simp [toDataList, ofDataList]
  | v :: vs => by
    rw [toDataList, ofDataList, List.cons.injEq, ofData_toData v, ofDataList_toDataList vs, List.forall_mem_cons]
termination_by structural items => items

end

/-! ## Storing what was read -/

mutual

theorem toData_ofData : ∀ j : Json, (ofData j).toData = j ↔ j.Loadable
  | .null => ⟨fun _ => .null, fun _ => rfl⟩
  | .bool b => ⟨fun _ => .bool b, fun _ => rfl⟩
  | .int n => by
    refine ⟨fun h => ?_, nofun⟩
    rw [ofData, toData] at h
    split at h <;> cases h
  | .float x => by
    rw [ofData, toData_num, Json.loadable_float]
    split
    · next hx => exact ⟨fun _ => hx, fun _ => rfl⟩
    · next hx => exact ⟨nofun, fun h => absurd h hx⟩
  | .str s => ⟨fun _ => .str s, fun _ => rfl⟩
  | .arr items => by rw [ofData, toData, Json.arr.injEq, toDataList_ofDataList items, Json.loadable_arr]
  | .obj members => by
    refine ⟨fun h => ?_, nofun⟩
    rw [ofData, toData] at h
    cases h
termination_by structural j => j

theorem toDataList_ofDataList : ∀ items : List Json, toDataList (ofDataList items) = items ↔ ∀ j ∈ items, j.Loadable
  | [] => by simp [toDataList, ofDataList]
  | j :: js => by
    rw [ofDataList, toDataList, List.cons.injEq, toData_ofData j, toDataList_ofDataList js, List.forall_mem_cons]
termination_by structural items => items

end

/-! ## What reading gives -/

mutual

theorem isDatum_of_mem_ofData : ∀ j : Json, ∀ u ∈ (ofData j).inside, u.isDatum = true
  | .null | .bool _ | .int _ | .float _ | .str _ | .obj _ => by simp [ofData, inside, isDatum]
  | .arr items => by
    intro u hu
    rw [ofData, inside] at hu
    rcases List.mem_cons.1 hu with rfl | hu
    · rfl
    · obtain ⟨v, hv, hu⟩ := mem_listInside.1 hu
      exact isDatum_of_mem_ofDataList items v hv u hu
termination_by structural j => j

theorem isDatum_of_mem_ofDataList : ∀ items : List Json, ∀ v ∈ ofDataList items, ∀ u ∈ v.inside, u.isDatum = true
  | [] => by simp [ofDataList]
  | j :: js => by
    rw [ofDataList, List.forall_mem_cons]
    exact ⟨isDatum_of_mem_ofData j, isDatum_of_mem_ofDataList js⟩
termination_by structural items => items

end

/-- **Data keeps what it can hold**: a value is read back from its data exactly if it is made of null, truth values,
finite numbers, strings and lists; data is stored again as it was exactly if it holds no object and only finite doubles
as numbers; and reading never gives `undefined`, a function, an object of the page or an element, not even inside
lists. -/
theorem data_roundTrip :
    (∀ v : Value, ofData v.toData = v ↔ v.Storable) ∧ (∀ j : Json, (ofData j).toData = j ↔ j.Loadable) ∧
      ∀ j : Json, ∀ u ∈ (ofData j).inside, u.isDatum = true :=
  ⟨ofData_toData, toData_ofData, isDatum_of_mem_ofData⟩

end Value

end Stepwise

import Mathlib.Data.List.Basic
import Mathlib.Tactic.Choose
import Stepwise.Proofs.Check.Walk

/-!
# Places in a script

A place in a syntax tree is a path of child positions: `[]` is the node itself and `i :: place` is a place in its part
number `i`; `Node.at?` goes to a place. Places are compared as lists of numbers, so a node comes before its parts and
the parts come one after the other.

**`Node.exists_places`**: walking through a tree meets the node of each place once, in the order of the places, and the
depth that it notes is the number of functions that the place lies in.
-/

namespace Stepwise

/-! ## Places -/

namespace Node

/-- The node at a place. -/
def at? : Node → List Nat → Option Node
  | n, [] => some n
  | n, i :: place => n.parts[i]?.bind (at? · place)

/-- The nodes that a place lies in, outermost first. -/
def around : Node → List Nat → List Node
  | _, [] => []
  | n, i :: place => n :: n.parts[i]?.elim [] (around · place)

/-- The node at a place below a node at depth `d`, with the number of functions around it. -/
def visit? (d : Nat) (n : Node) (place : List Nat) : Option Visit :=
  (n.at? place).map fun x => ⟨x, d + (n.around place).countP isFunction⟩

theorem visit?_nil (d : Nat) (n : Node) : n.visit? d [] = some ⟨n, d⟩ := rfl

theorem visit?_cons (d : Nat) (n : Node) (i : Nat) (place : List Nat) :
    n.visit? d (i :: place) = n.parts[i]?.bind (visit? (n.inner d) · place) := by
  unfold visit? inner
  cases hc : n.parts[i]? with
  | none => simp [at?, hc]
  | some c =>
    cases hx : c.at? place with
    | none => simp [at?, hc, hx]
    | some x =>
      simp only [at?, around, hc, hx, Option.bind_some, Option.elim_some, Option.map_some, List.countP_cons]
      split
      · simp
        omega
      · simp

/-! ## All places -/

/-- The list has all places below a node, a node before its parts and the parts in turn. The nodes at these places are
those that a walk meets. -/
structure Places (d : Nat) (n : Node) (places : List (List Nat)) : Prop where
  inOrder : places.Pairwise (· < ·)
  mem : ∀ place, place ∈ places ↔ (n.at? place).isSome = true
  walk : places.filterMap (n.visit? d) = n.visits d

/-- The places below a node, from the places below each of its parts. -/
def join (n : Node) (placesOf : Node → List (List Nat)) : List (List Nat) :=
  [] :: n.parts.zipIdx.flatMap fun x => (placesOf x.1).map (x.2 :: ·)

section Join

variable {d : Nat} {n : Node} {placesOf : Node → List (List Nat)}

theorem pairwise_zipIdx (l : List Node) : l.zipIdx.Pairwise fun a b => a.2 < b.2 := by
  rw [← List.pairwise_map (f := Prod.snd) (R := (· < ·)), List.zipIdx_map_snd]
  exact List.pairwise_lt_range'

theorem mem_join {place : List Nat} : place ∈ n.join placesOf ↔
    place = [] ∨ ∃ i rest c, place = i :: rest ∧ n.parts[i]? = some c ∧ rest ∈ placesOf c := by
  simp only [join, List.mem_cons, List.mem_flatMap, List.mem_map, Prod.exists, List.mem_zipIdx_iff_getElem?]
  refine or_congr_right ⟨?_, ?_⟩
  · rintro ⟨c, i, hc, rest, hrest, rfl⟩
    exact ⟨i, rest, c, rfl, hc, hrest⟩
  · rintro ⟨i, rest, c, rfl, hc, hrest⟩
    exact ⟨c, i, hc, rest, hrest, rfl⟩

theorem join_inOrder (h : ∀ c ∈ n.parts, (placesOf c).Pairwise (· < ·)) : (n.join placesOf).Pairwise (· < ·) := by
  refine List.pairwise_cons.2 ⟨fun place hp => ?_, List.pairwise_flatMap.2 ⟨?_, ?_⟩⟩
  · obtain ⟨_, -, hp⟩ := List.mem_flatMap.1 hp
    obtain ⟨rest, -, rfl⟩ := List.mem_map.1 hp
    exact List.nil_lt_cons _ _
  · intro x hx
    have hmem : x.1 ∈ n.parts := List.mem_of_getElem? (List.mem_zipIdx_iff_getElem?.1 hx)
    exact List.pairwise_map.2 ((h x.1 hmem).imp fun hlt => List.cons_lt_cons_iff.2 (.inr ⟨rfl, hlt⟩))
  · refine (pairwise_zipIdx n.parts).imp fun hlt x hx y hy => ?_
    obtain ⟨_, -, rfl⟩ := List.mem_map.1 hx
    obtain ⟨_, -, rfl⟩ := List.mem_map.1 hy
    exact List.cons_lt_cons_iff.2 (.inl hlt)

theorem join_walk (h : ∀ c ∈ n.parts, (placesOf c).filterMap (c.visit? (n.inner d)) = c.visits (n.inner d)) :
    (n.join placesOf).filterMap (n.visit? d) = n.visits d := by
  have hpart : ∀ x ∈ n.parts.zipIdx,
      ((placesOf x.1).map (x.2 :: ·)).filterMap (n.visit? d) = x.1.visits (n.inner d) := by
    intro x hx
    have hc : n.parts[x.2]? = some x.1 := List.mem_zipIdx_iff_getElem?.1 hx
    rw [List.filterMap_map, ← h x.1 (List.mem_of_getElem? hc)]
    congr 1
    funext place
    rw [Function.comp_apply, visit?_cons, hc, Option.bind_some]
  have hparts : (n.parts.zipIdx.flatMap fun x => x.1.visits (n.inner d)) = n.parts.flatMap (Node.visits (n.inner d)) :=
    calc (n.parts.zipIdx.flatMap fun x => x.1.visits (n.inner d))
        = (n.parts.zipIdx.map Prod.fst).flatMap (Node.visits (n.inner d)) := by rw [List.flatMap_map]
      _ = n.parts.flatMap (Node.visits (n.inner d)) := by rw [List.zipIdx_map_fst]
  rw [Node.join, List.filterMap_cons_some (visit?_nil d n), List.filterMap_flatMap, List.flatMap_congr hpart, hparts,
    ← visits_eq d n]

theorem Places.join (h : ∀ c ∈ n.parts, c.Places (n.inner d) (placesOf c)) : n.Places d (n.join placesOf) where
  inOrder := join_inOrder fun c hc => (h c hc).inOrder
  mem place := by
    rw [mem_join]
    cases place with
    | nil => simp [at?]
    | cons i rest =>
      cases hc : n.parts[i]? with
      | none => simp [at?, hc]
      | some c =>
        rw [at?, hc, Option.bind_some, ← (h c (List.mem_of_getElem? hc)).mem rest]
        constructor
        · rintro (hnil | ⟨j, rest', c', hplace, hc', hrest⟩)
          · cases hnil
          · cases hplace
            rw [hc] at hc'
            cases hc'
            exact hrest
        · exact fun hrest => .inr ⟨i, rest, c, rfl, hc, hrest⟩
  walk := join_walk fun c hc => (h c hc).walk

end Join

/-- **A walk meets every place once, in order.** -/
theorem exists_places (d : Nat) (n : Node) : ∃ places, n.Places d places := by
  refine walk_induction (motive := fun d n => ∃ places, n.Places d places) (fun d n hparts => ?_) d n
  choose! placesOf hplaces using hparts
  exact ⟨n.join placesOf, .join hplaces⟩

end Node

end Stepwise

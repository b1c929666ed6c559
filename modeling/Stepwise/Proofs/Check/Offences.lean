import Stepwise.Proofs.Check.Places
import Stepwise.Proofs.Machine.Origin

/-!
# Findings are the offences of a script

`Offends` says what the rules forbid, node by node and without a walk through the script: a `return` that no function
stands around, a construct outside the subset, and an update of something else than a variable. A mark is an offence at a
place (`Program.IsMark`).

**`Program.findings_are_marks`**: the findings of a script are its marks, each once, sorted by the start of their spans,
then by rule and then by place.
-/

namespace Stepwise

/-! ## Offences -/

/-- What is forbidden, in the order in which the rules are applied. -/
inductive Offence where
  | strayReturn
  | unsupported
  | updateTarget
deriving DecidableEq

namespace Offence

def all : List Offence := [strayReturn, unsupported, updateTarget]

def rank : Offence → Nat
  | strayReturn => 0
  | unsupported => 1
  | updateTarget => 2

/-- The rule against an offence. -/
def rule : Offence → CheckRule
  | strayReturn => .returnOutside
  | unsupported => .unsupported
  | updateTarget => .updateTarget

theorem mem_all (o : Offence) : o ∈ all := by cases o <;> decide

theorem pairwise_all : all.Pairwise (·.rank < ·.rank) := by decide

end Offence

/-- A node offends, given the nodes around it. The finding is what is reported. -/
inductive Offends : Offence → Node → List Node → Finding → Prop where
  | ret {value : Option Expr} {span : Span} {around : List Node} : (∀ n ∈ around, n.isFunction = false) →
    Offends .strayReturn (.stmt (.ret value span)) around
      ⟨span, "'return' outside of function", .error, "return-outside-function"⟩
  | stmt {kind : String} {span : Span} {around : List Node} :
    Offends .unsupported (.stmt (.unsupported kind span)) around
      ⟨span, kind ++ " is not supported and will be skipped", .warning, "unsupported-syntax"⟩
  | expr {kind : String} {span : Span} {around : List Node} :
    Offends .unsupported (.expr (.unsupported kind span)) around
      ⟨span, kind ++ " is not supported and will be skipped", .warning, "unsupported-syntax"⟩
  | update {op : UpdateOp} {before : Bool} {arg : Expr} {span : Span} {around : List Node} :
    (∀ name s, arg ≠ .ident name s) → Offends .updateTarget (.expr (.update op before arg span)) around
      ⟨span, "Update target must be a variable name", .warning, "invalid-update-target"⟩

section Rules

variable {n : Node} {around : List Node} {f : Finding}

theorem returnOutside_iff :
    CheckRule.returnOutside.find? ⟨n, around.countP Node.isFunction⟩ = some f ↔ Offends .strayReturn n around f := by
  constructor
  · intro h
    unfold CheckRule.returnOutside at h
    dsimp only at h
    split at h
    · rename_i hx
      cases h
      injection hx with hn hd
      subst hn
      exact .ret fun x hx => Bool.not_eq_true _ ▸ List.countP_eq_zero.1 hd x hx
    · cases h
  · rintro ⟨h⟩
    have hd : around.countP Node.isFunction = 0 := List.countP_eq_zero.2 fun x hx => by simp [h x hx]
    rw [hd]
    rfl

theorem unsupported_iff :
    CheckRule.unsupported.find? ⟨n, around.countP Node.isFunction⟩ = some f ↔ Offends .unsupported n around f := by
  constructor
  · intro h
    unfold CheckRule.unsupported at h
    dsimp only at h
    split at h
    · rename_i hx
      cases h
      cases hx
      exact .stmt
    · rename_i hx
      cases h
      cases hx
      exact .expr
    · cases h
  · rintro (_ | _) <;> rfl

theorem updateTarget_iff :
    CheckRule.updateTarget.find? ⟨n, around.countP Node.isFunction⟩ = some f ↔ Offends .updateTarget n around f := by
  constructor
  · intro h
    unfold CheckRule.updateTarget at h
    dsimp only at h
    split at h
    · cases h
    · rename_i hother hx
      cases h
      cases hx
      exact .update fun name s hs => hother name s hs
    · cases h
  · intro h
    cases h with
    | @update op before arg span _ harg =>
      cases arg with
      | ident name s => exact absurd rfl (harg name s)
      | _ => rfl

/-- A rule reports what its offence says. -/
theorem Offence.find?_iff (o : Offence) :
    o.rule.find? ⟨n, around.countP Node.isFunction⟩ = some f ↔ Offends o n around f := by
  cases o with
  | strayReturn => exact returnOutside_iff
  | unsupported => exact unsupported_iff
  | updateTarget => exact updateTarget_iff

theorem Offends.unique {o : Offence} {g : Finding} (hf : Offends o n around f) (hg : Offends o n around g) : f = g :=
  Option.some.inj ((o.find?_iff.2 hf).symm.trans (o.find?_iff.2 hg))

end Rules

/-! ## Marks -/

/-- An offence at a place. -/
structure Mark where
  offence : Offence
  place : List Nat
  finding : Finding

namespace Mark

/-- The order of a report. -/
def Before (a b : Mark) : Prop :=
  a.finding.span.start < b.finding.span.start ∨ a.finding.span.start = b.finding.span.start ∧
    (a.offence.rank < b.offence.rank ∨ a.offence = b.offence ∧ a.place < b.place)

end Mark

/-- The statement that all nodes of a script lie in. -/
def Program.root (p : Program) : Node := .stmt p.body

/-- The node at the place of the mark offends. -/
def Program.IsMark (p : Program) (mark : Mark) : Prop :=
  ∃ n, p.root.at? mark.place = some n ∧ Offends mark.offence n (p.root.around mark.place) mark.finding

/-- The marks of an offence at some places. -/
def Program.marksOf (p : Program) (places : List (List Nat)) (o : Offence) : List Mark :=
  places.filterMap fun place => ((p.root.visit? 0 place).bind o.rule.find?).map (⟨o, place, ·⟩)

section Marks

variable {p : Program} {places : List (List Nat)}

theorem Program.mem_marksOf {o : Offence} {mark : Mark} (h : p.root.Places 0 places) :
    mark ∈ p.marksOf places o ↔ mark.offence = o ∧ p.IsMark mark := by
  simp only [marksOf, List.mem_filterMap, Option.map_eq_some_iff, Option.bind_eq_some_iff, Node.visit?]
  constructor
  · rintro ⟨place, -, f, ⟨_, ⟨n, hn, rfl⟩, hf⟩, rfl⟩
    rw [Nat.zero_add] at hf
    exact ⟨rfl, n, hn, o.find?_iff.1 hf⟩
  · rintro ⟨rfl, n, hn, hf⟩
    refine ⟨mark.place, (h.mem _).2 (by rw [hn]; rfl), mark.finding, ⟨_, ⟨n, hn, rfl⟩, ?_⟩, rfl⟩
    rw [Nat.zero_add]
    exact (Offence.find?_iff _).2 hf

theorem Program.marksOf_findings (h : p.root.Places 0 places) (o : Offence) :
    (p.marksOf places o).map Mark.finding = p.visits.filterMap o.rule.find? := by
  have hwalk : places.filterMap (p.root.visit? 0) = p.visits := h.walk
  rw [marksOf, List.map_filterMap, ← hwalk, List.filterMap_filterMap]
  congr 1
  funext place
  rw [Option.map_map]
  exact Option.map_id'

theorem Program.marksOf_inOrder (h : p.root.Places 0 places) (o : Offence) :
    (p.marksOf places o).Pairwise fun a b => a.offence = b.offence ∧ a.place < b.place := by
  refine List.pairwise_filterMap.2 (h.inOrder.imp fun hlt a ha b hb => ?_)
  obtain ⟨_, -, rfl⟩ := Option.map_eq_some_iff.1 ha
  obtain ⟨_, -, rfl⟩ := Option.map_eq_some_iff.1 hb
  exact ⟨rfl, hlt⟩

/-- The marks of all offences are the marks of the script. -/
theorem Program.mem_marks {mark : Mark} (h : p.root.Places 0 places) :
    mark ∈ Offence.all.flatMap (p.marksOf places) ↔ p.IsMark mark := by
  rw [List.mem_flatMap]
  constructor
  · rintro ⟨o, -, hm⟩
    exact ((p.mem_marksOf h).1 hm).2
  · intro hm
    exact ⟨mark.offence, mark.offence.mem_all, (p.mem_marksOf h).2 ⟨rfl, hm⟩⟩

theorem Program.marks_findings (h : p.root.Places 0 places) : (Offence.all.flatMap (p.marksOf places)).map Mark.finding =
    Offence.all.flatMap fun o => p.visits.filterMap o.rule.find? := by
  rw [List.map_flatMap]
  exact List.flatMap_congr fun o _ => p.marksOf_findings h o

/-- The marks of all offences come rule by rule. -/
theorem Program.marks_inOrder (h : p.root.Places 0 places) : (Offence.all.flatMap (p.marksOf places)).Pairwise
    fun a b => a.offence.rank < b.offence.rank ∨ a.offence = b.offence ∧ a.place < b.place := by
  refine List.pairwise_flatMap.2 ⟨fun o _ => (p.marksOf_inOrder h o).imp .inr, ?_⟩
  refine Offence.pairwise_all.imp fun hlt a ha b hb => .inl ?_
  rw [((p.mem_marksOf h).1 ha).1, ((p.mem_marksOf h).1 hb).1]
  exact hlt

end Marks

/-! ## Sorting -/

section Sorting

variable {α : Type} (key : α → Nat)

theorem byKey_trans (a b c : α) (hab : decide (key a ≤ key b) = true) (hbc : decide (key b ≤ key c) = true) :
    decide (key a ≤ key c) = true := by
  rw [decide_eq_true_eq] at *
  exact Nat.le_trans hab hbc

theorem byKey_total (a b : α) : (decide (key a ≤ key b) || decide (key b ≤ key a)) = true := by
  rw [Bool.or_eq_true, decide_eq_true_eq, decide_eq_true_eq]
  exact Nat.le_total _ _

/-- Of elements with the same key, sorting keeps the order. -/
theorem filter_mergeSort (l : List α) (k : Nat) :
    (l.mergeSort fun a b => key a ≤ key b).filter (key · = k) = l.filter (key · = k) := by
  have hsame : (l.filter (key · = k)).Pairwise fun a b => decide (key a ≤ key b) = true := by
    refine List.pairwise_of_forall_mem_list fun a ha b hb => ?_
    have hak := (List.mem_filter.1 ha).2
    have hbk := (List.mem_filter.1 hb).2
    simp only [decide_eq_true_eq] at hak hbk ⊢
    omega
  have hkept := (List.sublist_mergeSort (byKey_trans key) (byKey_total key) hsame List.filter_sublist).filter (key · = k)
  simp only [List.filter_filter, Bool.and_self] at hkept
  have hperm := (l.mergeSort_perm fun a b => key a ≤ key b).filter (key · = k)
  exact (hkept.eq_of_length hperm.length_eq.symm).symm

/-- Sorting refines the order in which the elements came. -/
theorem pairwise_mergeSort_refined {r : α → α → Prop} {l : List α} (h : l.Pairwise r) :
    (l.mergeSort fun a b => key a ≤ key b).Pairwise fun a b => key a < key b ∨ key a = key b ∧ r a b := by
  have hsorted := List.pairwise_mergeSort (byKey_trans key) (byKey_total key) l
  rw [List.pairwise_iff_forall_sublist] at hsorted h ⊢
  intro a b hab
  have hle : key a ≤ key b := of_decide_eq_true (hsorted hab)
  rcases Nat.lt_or_eq_of_le hle with hlt | heq
  · exact .inl hlt
  · refine .inr ⟨heq, h ?_⟩
    have hkept := hab.filter (key · = key a)
    rw [filter_mergeSort, List.filter_cons_of_pos (by simp), List.filter_cons_of_pos (by simp [heq])] at hkept
    exact hkept.trans List.filter_sublist

end Sorting

/-! ## Findings -/

/-- The place and the offence determine the finding. -/
theorem Program.IsMark.unique {p : Program} {a b : Mark} (ha : p.IsMark a) (hb : p.IsMark b)
    (ho : a.offence = b.offence) (hp : a.place = b.place) : a.finding = b.finding := by
  obtain ⟨n, hn, hf⟩ := ha
  obtain ⟨n', hn', hg⟩ := hb
  rw [hp] at hn hf
  cases hn.symm.trans hn'
  exact hf.unique (ho ▸ hg)

/-- Of two marks of a script, one before the other, the offences or the places differ. -/
theorem Program.IsMark.differ {p : Program} {a b : Mark} (ha : p.IsMark a) (hb : p.IsMark b) (h : a.Before b) :
    (a.offence, a.place) ≠ (b.offence, b.place) := by
  intro heq
  obtain ⟨ho, hp⟩ := Prod.mk.inj heq
  have hf : a.finding = b.finding := ha.unique hb ho hp
  rcases h with hlt | ⟨-, hlt | ⟨-, hlt⟩⟩
  · exact Nat.lt_irrefl _ (hf ▸ hlt)
  · exact Nat.lt_irrefl _ (ho ▸ hlt)
  · exact List.lt_irrefl _ (hp ▸ hlt)

theorem Program.findings_eq (p : Program) : p.findings =
    (Offence.all.flatMap fun o => p.visits.filterMap o.rule.find?).mergeSort
      fun f g => f.span.start ≤ g.span.start := rfl

/-- **The findings of a script.** They are those of a list of marks which

* has every mark of the script: a `return` that lies in no function body, a construct outside the subset, or an update of
  something else than a variable, at any place in the script; and it has nothing else;
* has one mark for an offence at a place;
* is sorted by the start of the spans, for equal starts by rule, and for one rule by place, a node before its parts. -/
theorem Program.findings_are_marks (p : Program) : ∃ marks : List Mark,
    p.findings = marks.map Mark.finding ∧ (∀ mark, mark ∈ marks ↔ p.IsMark mark) ∧
    (marks.map fun mark => (mark.offence, mark.place)).Nodup ∧ marks.Pairwise Mark.Before := by
  obtain ⟨places, h⟩ := p.root.exists_places 0
  have hmem (mark : Mark) : mark ∈ (Offence.all.flatMap (p.marksOf places)).mergeSort
      (fun a b => a.finding.span.start ≤ b.finding.span.start) ↔ p.IsMark mark := by
    rw [List.mem_mergeSort, p.mem_marks h]
  have hsorted := pairwise_mergeSort_refined (fun mark : Mark => mark.finding.span.start) (p.marks_inOrder h)
  refine ⟨_, ?_, hmem, ?_, hsorted⟩
  · rw [p.findings_eq, ← p.marks_findings h]
    symm
    exact List.map_mergeSort (f := Mark.finding) fun _ _ _ _ => rfl
  · refine List.pairwise_map.2 (List.Pairwise.imp_of_mem ?_ hsorted)
    intro a b ha hb hbefore
    exact ((hmem a).1 ha).differ ((hmem b).1 hb) hbefore

end Stepwise

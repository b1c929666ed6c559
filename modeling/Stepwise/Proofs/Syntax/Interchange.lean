import Mathlib.Data.List.Forall2
import Stepwise.Check.Visit
import Stepwise.Proofs.Json.ReadBack
import Stepwise.Proofs.Syntax.Encoding
import Stepwise.Proofs.Syntax.Nesting

/-!
# Scripts as JSON text

* **`Program.toJson_every`**: every object of an encoded script has all the members of its kind in their order, with null
  only where a part may be missing, and its span behind them unless that is zero (`Laid`).
* **`Program.json_roundTrip`**: a script that was read can be written as JSON text and read from that text again, with
  all its spans, if its number literals survive the text.

The same induction shows that `A` holds of all atoms, once it holds of the numbers of all spans and of all number
literals: what `Json.parse?_compact` asks of them is one such `A`.
-/

namespace Stepwise

open Json

/-! ## The format -/

/-- A member of an object, which may be null if it is `optional`. -/
structure Slot where
  name : String
  optional : Bool

/-- A member that is always there. -/
def Slot.part (name : String) : Slot := ⟨name, false⟩

/-- A member that is null when the part is missing. -/
def Slot.option (name : String) : Slot := ⟨name, true⟩

/-- The members of nodes behind their tag. -/
def nodeSlots : List (String × List Slot) :=
  [("LitBool", [.part "v"]), ("LitNum", [.part "v"]), ("LitStr", [.part "v"]), ("LitNull", []),
    ("Ident", [.part "name"]), ("Member", [.part "object", .part "property"]),
    ("Call", [.part "callee", .part "args"]), ("Binary", [.part "op", .part "left", .part "right"]),
    ("Logical", [.part "op", .part "left", .part "right"]), ("Unary", [.part "op", .part "arg"]),
    ("Update", [.part "op", .part "prefix", .part "arg"]), ("Assign", [.part "op", .part "target", .part "value"]),
    ("Ternary", [.part "condition", .part "consequent", .part "alternate"]), ("Function", [.part "def"]),
    ("Unsupported", [.part "kind"]), ("Static", [.part "name"]), ("Computed", [.part "expr"]),
    ("Block", [.part "body"]), ("Declare", [.part "kind", .part "decls"]), ("Expr", [.part "expr"]),
    ("If", [.part "test", .part "then_s", .option "else_s"]),
    ("For", [.option "init", .option "test", .option "update", .part "body"]), ("Return", [.option "value"]),
    ("Empty", [])]

/-- The members of functions and of declarators, which have no tag. -/
def recordSlots : List (List Slot) :=
  [[.option "name", .part "params", .part "body", .part "is_arrow"], [.part "name", .option "init"]]

/-- The members of spans and of whole scripts, behind which no further span is written. -/
def closedSlots : List (List Slot) :=
  [[.part "start", .part "end", .part "start_line", .part "start_col", .part "end_line", .part "end_col"],
    [.part "body", .part "span"]]

/-- The member has the name of the slot, and it is null only where that stands for a missing part. -/
def Slot.Fits (slot : Slot) (member : String × Json) : Prop :=
  member.1 = slot.name ∧ (member.2 = .null → slot.optional = true)

@[simp] theorem Slot.part_fits {name n : String} {j : Json} :
    (Slot.part name).Fits (n, j) ↔ n = name ∧ j ≠ .null := by simp [Slot.Fits, Slot.part]

@[simp] theorem Slot.option_fits {name n : String} {j : Json} : (Slot.option name).Fits (n, j) ↔ n = name := by
  simp [Slot.Fits, Slot.option]

/-- Nothing, or a span that is not zero. -/
def SpanLast (members : List (String × Json)) : Prop :=
  members = [] ∨ ∃ s : Span, s ≠ .zero ∧ members = [("span", s.toJson)]

/-- The members of an object of the format. -/
inductive Laid : List (String × Json) → Prop where
  | node {tag : String} {slots : List Slot} {fields last : List (String × Json)}
      (known : nodeSlots.lookup tag = some slots) (fits : List.Forall₂ Slot.Fits slots fields) (span : SpanLast last) :
      Laid (("t", .str tag) :: fields ++ last)
  | record {slots : List Slot} {fields last : List (String × Json)} (known : slots ∈ recordSlots)
      (fits : List.Forall₂ Slot.Fits slots fields) (span : SpanLast last) : Laid (fields ++ last)
  | closed {slots : List Slot} {fields : List (String × Json)} (known : slots ∈ closedSlots)
      (fits : List.Forall₂ Slot.Fits slots fields) : Laid fields

theorem spanLast_field (s : Span) : SpanLast s.field := by
  unfold Span.field
  split
  · exact .inl rfl
  · exact .inr ⟨s, ‹_›, rfl⟩

theorem Span.laid_toJson (s : Span) : Laid [("start", .nat s.start), ("end", .nat s.stop),
    ("start_line", .nat s.startLine), ("start_col", .nat s.startCol), ("end_line", .nat s.stopLine),
    ("end_col", .nat s.stopCol)] := by
  refine .closed (List.mem_cons_self ..) ?_
  simp [Json.nat]

/-! ## Every object has the format -/

section Every

variable {A : Json → Prop} {O : List (String × Json) → Prop}

theorem everyMember_append {ms ms' : List (String × Json)} (h : EveryMember A O ms) (h' : EveryMember A O ms') :
    EveryMember A O (ms ++ ms') := by
  induction ms with
  | nil => exact h'
  | cons m ms ih => exact ⟨h.1, ih h.2⟩

/-- The atoms that are neither numbers of a span nor number literals. -/
structure Admits (A : Json → Prop) : Prop where
  null : A .null
  bool : ∀ b, A (.bool b)
  str : ∀ s, A (.str s)

/-- The numbers of a span are admitted. -/
def Span.Admitted (A : Json → Prop) (s : Span) : Prop :=
  ∀ n ∈ [s.start, s.stop, s.startLine, s.startCol, s.stopLine, s.stopCol], A (.nat n)

/-- A number literal is admitted. -/
def Visit.Admitted (A : Json → Prop) (v : Visit) : Prop := ∀ x s, v.node = .expr (.num x s) → A (.float x)

theorem Span.every_toJson {s : Span} (h : s.Admitted A) : s.toJson.Every A Laid := by
  simp only [Span.Admitted, List.forall_mem_cons] at h
  exact ⟨s.laid_toJson, h.1, h.2.1, h.2.2.1, h.2.2.2.1, h.2.2.2.2.1, h.2.2.2.2.2.1, trivial⟩

theorem Span.every_field {s : Span} (h : s ≠ .zero → s.Admitted A) : EveryMember A Laid s.field := by
  unfold Span.field
  split
  · trivial
  · exact ⟨Span.every_toJson (h ‹_›), trivial⟩

theorem every_node (hA : Admits A) {tag : String} {slots : List Slot} {fields : List (String × Json)} {s : Span}
    (known : nodeSlots.lookup tag = some slots) (fits : List.Forall₂ Slot.Fits slots fields)
    (hf : EveryMember A Laid fields) (hs : s ≠ .zero → s.Admitted A) : (node tag fields s).Every A Laid :=
  ⟨.node known fits (spanLast_field s), hA.str tag, everyMember_append hf (Span.every_field hs)⟩

theorem every_record {slots : List Slot} {fields : List (String × Json)} {s : Span} (known : slots ∈ recordSlots)
    (fits : List.Forall₂ Slot.Fits slots fields) (hf : EveryMember A Laid fields) (hs : s.Admitted A) :
    (spanned fields s).Every A Laid :=
  ⟨.record known fits (spanLast_field s), everyMember_append hf (Span.every_field fun _ => hs)⟩

theorem everyItem_str (hA : Admits A) (names : List String) : EveryItem A Laid (names.map .str) := by
  induction names with
  | nil => trivial
  | cons name names ih => exact ⟨hA.str name, ih⟩

theorem Declarator.toJson_mk (name : String) (init : Option Expr) (s : Span) :
    (Declarator.mk name init s).toJson = spanned [("name", .str name), ("init", Expr.optionToJson init)] s := by
  cases init <;> rfl

@[simp] theorem MemberKey.toJson_ne_null (key : MemberKey) : key.toJson ≠ .null := by
  cases key <;> exact Json.noConfusion

@[simp] theorem FunctionDef.toJson_ne_null (fn : FunctionDef) : fn.toJson ≠ .null := by
  cases fn
  exact Json.noConfusion

theorem Outline.listSpans_append (os os' : List Outline) : listSpans (os ++ os') = listSpans os ++ listSpans os' := by
  induction os with
  | nil => rfl
  | cons o os ih => rw [List.cons_append, listSpans, listSpans, ih, List.append_assoc]

mutual

theorem Expr.toJson_every (hA : Admits A) : ∀ (e : Expr) {d : Nat}, (∀ span ∈ e.outline.spans, span.Admitted A) →
    (∀ visit ∈ e.visits d, visit.Admitted A) → e.toJson.Every A Laid
  | .bool v s, _, hs, hv => by
    exact every_node hA rfl (by simp) ⟨hA.bool v, trivial⟩ fun _ => hs s (List.mem_cons_self ..)
  | .num v s, _, hs, hv => by
    simp only [Expr.visits, List.forall_mem_cons] at hv
    exact every_node hA rfl (by simp) ⟨hv.1 v s rfl, trivial⟩ fun _ => hs s (List.mem_cons_self ..)
  | .str v s, _, hs, hv => by
    exact every_node hA rfl (by simp) ⟨hA.str v, trivial⟩ fun _ => hs s (List.mem_cons_self ..)
  | .null s, _, hs, hv => by
    exact every_node hA rfl .nil trivial fun _ => hs s (List.mem_cons_self ..)
  | .ident name s, _, hs, hv => by
    exact every_node hA rfl (by simp) ⟨hA.str name, trivial⟩ fun _ => hs s (List.mem_cons_self ..)
  | .member object key s, _, hs, hv => by
    simp only [Expr.outline, Outline.spans, Outline.listSpans, List.forall_mem_cons, List.forall_mem_append] at hs
    simp only [Expr.visits, List.cons_append, List.forall_mem_cons, List.forall_mem_append] at hv
    have ho := object.toJson_every hA hs.2.1 hv.2.1
    have hk := key.toJson_every hA hs.2.2 hv.2.2
    exact every_node hA rfl (by simp) ⟨ho, hk, trivial⟩ fun _ => hs.1
  | .call callee args s, _, hs, hv => by
    simp only [Expr.outline, Outline.spans, Outline.listSpans, List.forall_mem_cons, List.forall_mem_append] at hs
    simp only [Expr.visits, List.cons_append, List.forall_mem_cons, List.forall_mem_append] at hv
    have hc := callee.toJson_every hA hs.2.1 hv.2.1
    have ha := Expr.listToJson_every hA args hs.2.2 hv.2.2
    exact every_node hA rfl (by simp) ⟨hc, ha, trivial⟩ fun _ => hs.1
  | .binary op left right s, _, hs, hv => by
    simp only [Expr.outline, Outline.spans, Outline.listSpans, List.forall_mem_cons, List.forall_mem_append] at hs
    simp only [Expr.visits, List.cons_append, List.forall_mem_cons, List.forall_mem_append] at hv
    have hl := left.toJson_every hA hs.2.1 hv.2.1
    have hr := right.toJson_every hA hs.2.2.1 hv.2.2
    exact every_node hA rfl (by simp) ⟨hA.str _, hl, hr, trivial⟩ fun _ => hs.1
  | .logical op left right s, _, hs, hv => by
    simp only [Expr.outline, Outline.spans, Outline.listSpans, List.forall_mem_cons, List.forall_mem_append] at hs
    simp only [Expr.visits, List.cons_append, List.forall_mem_cons, List.forall_mem_append] at hv
    have hl := left.toJson_every hA hs.2.1 hv.2.1
    have hr := right.toJson_every hA hs.2.2.1 hv.2.2
    exact every_node hA rfl (by simp) ⟨hA.str _, hl, hr, trivial⟩ fun _ => hs.1
  | .unary op arg s, _, hs, hv => by
    simp only [Expr.outline, Outline.spans, Outline.listSpans, List.forall_mem_cons, List.forall_mem_append] at hs
    simp only [Expr.visits, List.forall_mem_cons] at hv
    have ha := arg.toJson_every hA hs.2.1 hv.2
    exact every_node hA rfl (by simp) ⟨hA.str _, ha, trivial⟩ fun _ => hs.1
  | .update op before arg s, _, hs, hv => by
    simp only [Expr.outline, Outline.spans, Outline.listSpans, List.forall_mem_cons, List.forall_mem_append] at hs
    simp only [Expr.visits, List.forall_mem_cons] at hv
    have ha := arg.toJson_every hA hs.2.1 hv.2
    exact every_node hA rfl (by simp) ⟨hA.str _, hA.bool _, ha, trivial⟩ fun _ => hs.1
  | .assign op target value s, _, hs, hv => by
    simp only [Expr.outline, Outline.spans, Outline.listSpans, List.forall_mem_cons, List.forall_mem_append] at hs
    simp only [Expr.visits, List.cons_append, List.forall_mem_cons, List.forall_mem_append] at hv
    have ht := target.toJson_every hA hs.2.1 hv.2.1
    have hw := value.toJson_every hA hs.2.2.1 hv.2.2
    exact every_node hA rfl (by simp) ⟨hA.str _, ht, hw, trivial⟩ fun _ => hs.1
  | .ternary condition consequent alternate s, _, hs, hv => by
    simp only [Expr.outline, Outline.spans, Outline.listSpans, List.forall_mem_cons, List.forall_mem_append] at hs
    simp only [Expr.visits, List.cons_append, List.forall_mem_cons, List.forall_mem_append] at hv
    have hc := condition.toJson_every hA hs.2.1 hv.2.1.1
    have ht := consequent.toJson_every hA hs.2.2.1 hv.2.1.2
    have he := alternate.toJson_every hA hs.2.2.2.1 hv.2.2
    exact every_node hA rfl (by simp) ⟨hc, ht, he, trivial⟩ fun _ => hs.1
  | .function fn, _, hs, hv => by
    simp only [Expr.visits, List.forall_mem_cons] at hv
    have hf := fn.toJson_every hA hs hv.2
    exact every_node hA rfl (by simp) ⟨hf, trivial⟩ fun h => absurd rfl h
  | .unsupported kind s, _, hs, hv => by
    exact every_node hA rfl (by simp) ⟨hA.str kind, trivial⟩ fun _ => hs s (List.mem_cons_self ..)

theorem Expr.listToJson_every (hA : Admits A) : ∀ (es : List Expr) {d : Nat},
    (∀ span ∈ Outline.listSpans (Expr.outlines es), span.Admitted A) →
    (∀ visit ∈ Expr.listVisits d es, visit.Admitted A) → EveryItem A Laid (Expr.listToJson es)
  | [], _, _, _ => trivial
  | e :: es, _, hs, hv => by
    simp only [Expr.outlines, Outline.listSpans, List.forall_mem_append] at hs
    simp only [Expr.listVisits, List.forall_mem_append] at hv
    exact ⟨e.toJson_every hA hs.1 hv.1, Expr.listToJson_every hA es hs.2 hv.2⟩

theorem MemberKey.toJson_every (hA : Admits A) : ∀ (key : MemberKey) {d : Nat},
    (∀ span ∈ Outline.listSpans key.outlines, span.Admitted A) → (∀ visit ∈ key.visits d, visit.Admitted A) →
    key.toJson.Every A Laid
  | .fixed name, _, _, _ =>
    every_node hA rfl (by simp) ⟨hA.str name, trivial⟩ fun h => absurd rfl h
  | .computed e, _, hs, hv => by
    simp only [MemberKey.outlines, Outline.listSpans, List.append_nil] at hs
    have he := e.toJson_every hA hs hv
    exact every_node hA rfl (by simp) ⟨he, trivial⟩ fun h => absurd rfl h

theorem FunctionDef.toJson_every (hA : Admits A) : ∀ (fn : FunctionDef) {d : Nat},
    (∀ span ∈ fn.outline.spans, span.Admitted A) → (∀ visit ∈ fn.visits d, visit.Admitted A) → fn.toJson.Every A Laid
  | .mk name params body arrow s, _, hs, hv => by
    simp only [FunctionDef.outline, Outline.spans, Outline.listSpans, List.append_nil, List.forall_mem_cons] at hs
    have hb := body.toJson_every hA hs.2 hv
    refine every_record (List.mem_cons_self ..) ?_ ⟨?_, everyItem_str hA params, hb, hA.bool arrow, trivial⟩ hs.1
    · simp
    · cases name with
      | none => exact hA.null
      | some name => exact hA.str name

theorem Declarator.listToJson_every (hA : Admits A) : ∀ (ds : List Declarator) {d : Nat},
    (∀ span ∈ Outline.listSpans (Declarator.outlines ds), span.Admitted A) →
    (∀ visit ∈ Declarator.listVisits d ds, visit.Admitted A) → EveryItem A Laid (Declarator.listToJson ds)
  | [], _, _, _ => trivial
  | .mk name init s :: ds, _, hs, hv => by
    simp only [Declarator.outlines, Declarator.outline, Outline.spans, Outline.listSpans, List.cons_append,
      List.forall_mem_cons, List.forall_mem_append] at hs
    simp only [Declarator.listVisits, List.forall_mem_append] at hv
    have hi := Expr.optionToJson_every hA init hs.2.1 hv.1
    have hds := Declarator.listToJson_every hA ds hs.2.2 hv.2
    refine ⟨?_, hds⟩
    rw [Declarator.toJson_mk]
    exact every_record (List.mem_cons_of_mem _ (List.mem_cons_self ..)) (by simp) ⟨hA.str name, hi, trivial⟩ hs.1

theorem ForInit.optionToJson_every (hA : Admits A) : ∀ (init : Option ForInit) {d : Nat},
    (∀ span ∈ Outline.listSpans (ForInit.optionOutlines init), span.Admitted A) →
    (∀ visit ∈ ForInit.optionVisits d init, visit.Admitted A) → (ForInit.optionToJson init).Every A Laid
  | none, _, _, _ => hA.null
  | some (.declare kind decls s), _, hs, hv => by
    simp only [ForInit.optionOutlines, ForInit.outline, Outline.listSpans, Outline.spans, List.append_nil,
      List.forall_mem_cons] at hs
    have hd := Declarator.listToJson_every hA decls hs.2 hv
    exact every_node hA rfl (by simp) ⟨hA.str _, hd, trivial⟩ fun _ => hs.1
  | some (.expr e), _, hs, hv => by
    simp only [ForInit.optionOutlines, ForInit.outline, Outline.listSpans, List.append_nil] at hs
    have he := e.toJson_every hA hs hv
    exact every_node hA rfl (by simp) ⟨he, trivial⟩ fun h => absurd rfl h

theorem Stmt.toJson_every (hA : Admits A) : ∀ (s : Stmt) {d : Nat}, (∀ span ∈ s.outline.spans, span.Admitted A) →
    (∀ visit ∈ s.visits d, visit.Admitted A) → s.toJson.Every A Laid
  | .block body s, _, hs, hv => by
    simp only [Stmt.outline, Outline.spans, List.forall_mem_cons] at hs
    simp only [Stmt.visits, List.forall_mem_cons] at hv
    have hb := Stmt.listToJson_every hA body hs.2 hv.2
    exact every_node hA rfl (by simp) ⟨hb, trivial⟩ fun _ => hs.1
  | .declare kind decls s, _, hs, hv => by
    simp only [Stmt.outline, Outline.spans, List.forall_mem_cons] at hs
    simp only [Stmt.visits, List.forall_mem_cons] at hv
    have hd := Declarator.listToJson_every hA decls hs.2 hv.2
    exact every_node hA rfl (by simp) ⟨hA.str _, hd, trivial⟩ fun _ => hs.1
  | .function fn, _, hs, hv => by
    simp only [Stmt.visits, List.forall_mem_cons] at hv
    have hf := fn.toJson_every hA hs hv.2
    exact every_node hA rfl (by simp) ⟨hf, trivial⟩ fun h => absurd rfl h
  | .expr e s, _, hs, hv => by
    simp only [Stmt.outline, Outline.spans, Outline.listSpans, List.forall_mem_cons, List.forall_mem_append] at hs
    simp only [Stmt.visits, List.forall_mem_cons] at hv
    have he := e.toJson_every hA hs.2.1 hv.2
    exact every_node hA rfl (by simp) ⟨he, trivial⟩ fun _ => hs.1
  | .ifElse test thenS elseS s, _, hs, hv => by
    simp only [Stmt.outline, Outline.spans, Outline.listSpans, List.forall_mem_cons, List.forall_mem_append] at hs
    simp only [Stmt.visits, List.cons_append, List.forall_mem_cons, List.forall_mem_append] at hv
    have ht := test.toJson_every hA hs.2.1 hv.2.1.1
    have hthen := thenS.toJson_every hA hs.2.2.1 hv.2.1.2
    have helse := Stmt.optionToJson_every hA elseS hs.2.2.2 hv.2.2
    exact every_node hA rfl (by simp) ⟨ht, hthen, helse, trivial⟩ fun _ => hs.1
  | .for init test update body s, _, hs, hv => by
    simp only [Stmt.outline, Outline.spans, Outline.listSpans, Outline.listSpans_append, List.forall_mem_cons,
      List.forall_mem_append] at hs
    simp only [Stmt.visits, List.cons_append, List.forall_mem_cons, List.forall_mem_append] at hv
    have hi := ForInit.optionToJson_every hA init hs.2.1 hv.2.1.1.1
    have ht := Expr.optionToJson_every hA test hs.2.2.1 hv.2.1.1.2
    have hu := Expr.optionToJson_every hA update hs.2.2.2.1 hv.2.1.2
    have hb := body.toJson_every hA hs.2.2.2.2.1 hv.2.2
    exact every_node hA rfl (by simp) ⟨hi, ht, hu, hb, trivial⟩ fun _ => hs.1
  | .ret value s, _, hs, hv => by
    simp only [Stmt.outline, Outline.spans, List.forall_mem_cons] at hs
    simp only [Stmt.visits, List.forall_mem_cons] at hv
    have hw := Expr.optionToJson_every hA value hs.2 hv.2
    exact every_node hA rfl (by simp) ⟨hw, trivial⟩ fun _ => hs.1
  | .empty s, _, hs, hv => by
    exact every_node hA rfl .nil trivial fun _ => hs s (List.mem_cons_self ..)
  | .unsupported kind s, _, hs, hv => by
    exact every_node hA rfl (by simp) ⟨hA.str kind, trivial⟩ fun _ => hs s (List.mem_cons_self ..)

theorem Stmt.listToJson_every (hA : Admits A) : ∀ (ss : List Stmt) {d : Nat},
    (∀ span ∈ Outline.listSpans (Stmt.outlines ss), span.Admitted A) →
    (∀ visit ∈ Stmt.listVisits d ss, visit.Admitted A) → EveryItem A Laid (Stmt.listToJson ss)
  | [], _, _, _ => trivial
  | s :: ss, _, hs, hv => by
    simp only [Stmt.outlines, Outline.listSpans, List.forall_mem_append] at hs
    simp only [Stmt.listVisits, List.forall_mem_append] at hv
    exact ⟨s.toJson_every hA hs.1 hv.1, Stmt.listToJson_every hA ss hs.2 hv.2⟩

theorem Expr.optionToJson_every (hA : Admits A) : ∀ (e : Option Expr) {d : Nat},
    (∀ span ∈ Outline.listSpans (Expr.optionOutlines e), span.Admitted A) →
    (∀ visit ∈ Expr.optionVisits d e, visit.Admitted A) → (Expr.optionToJson e).Every A Laid
  | none, _, _, _ => hA.null
  | some e, _, hs, hv => by
    simp only [Expr.optionOutlines, Outline.listSpans, List.append_nil] at hs
    exact e.toJson_every hA hs hv

theorem Stmt.optionToJson_every (hA : Admits A) : ∀ (s : Option Stmt) {d : Nat},
    (∀ span ∈ Outline.listSpans (Stmt.optionOutlines s), span.Admitted A) →
    (∀ visit ∈ Stmt.optionVisits d s, visit.Admitted A) → (Stmt.optionToJson s).Every A Laid
  | none, _, _, _ => hA.null
  | some s, _, hs, hv => by
    simp only [Stmt.optionOutlines, Outline.listSpans, List.append_nil] at hs
    exact s.toJson_every hA hs hv

end

theorem Program.toJson_every (hA : Admits A) {p : Program} (hs : ∀ span ∈ p.outline.spans, span.Admitted A)
    (hv : ∀ visit ∈ p.visits, visit.Admitted A) : p.toJson.Every A Laid := by
  simp only [Program.outline, Outline.spans, Outline.listSpans, List.forall_mem_cons, List.append_nil] at hs
  have hbody := p.body.toJson_every hA hs.2 hv
  refine ⟨.closed (List.mem_cons_of_mem _ (List.mem_cons_self ..)) ?_, hbody, Span.every_toJson hs.1, trivial⟩
  simp [Span.toJson]

end Every

/-! ## Numbers of spans -/

theorem length_le_byteLength (cs : List Char) : cs.length ≤ Cursor.byteLength cs := by
  induction cs with
  | nil => exact Nat.le_refl _
  | cons c cs ih =>
    have hpos := c.utf8Size_pos
    rw [List.length_cons, Cursor.byteLength_cons]
    omega

/-- Offset, line and column are at most the bytes of the text. -/
theorem LiesAt.le {text : List Char} {offset line col : Nat} (h : LiesAt text offset line col) :
    offset ≤ Cursor.byteLength text ∧ line ≤ Cursor.byteLength text ∧ col ≤ Cursor.byteLength text := by
  obtain ⟨before, after, rfl, rfl, rfl, rfl⟩ := h
  have hlength := length_le_byteLength before
  have hline := List.count_le_length (a := '\n') (l := before)
  have hcol : (lastLine before).length ≤ before.length := by
    have htake := (List.takeWhile_prefix (l := before.reverse) (· ≠ '\n')).length_le
    rw [List.length_reverse] at htake
    rwa [lastLine, List.length_reverse]
  rw [Cursor.byteLength_append]
  omega

theorem Span.Located.admitted {text : List Char} {s : Span} (h : s.Located text)
    (hsize : Cursor.byteLength text < wordSize) : s.Admitted Exact := by
  have hstart := h.start.le
  have hstop := h.stop.le
  have hexact {n : Nat} (hn : n ≤ Cursor.byteLength text) : Exact (.nat n) := by
    show -(signedBound : Int) ≤ n ∧ (n : Int) < wordSize
    omega
  simp only [Span.Admitted, List.forall_mem_cons]
  exact ⟨hexact hstart.1, hexact hstop.1, hexact hstart.2.1, hexact hstart.2.2, hexact hstop.2.1, hexact hstop.2.2,
    by simp⟩

/-! ## Round trip -/

/-- A script that was read is the one that its JSON encodes, also when that is written as a text and read again; the
reader of the text refuses it only when it is nested too deep. Its objects have the members of the format, with null for
a missing part and without the spans that are zero. Number literals are finite, and each is assumed to survive its
text. -/
theorem Program.json_roundTrip {source : String} {p : Program} (h : Program.parse source = .ok p)
    (hsize : source.utf8ByteSize < wordSize)
    (hfinite : ∀ v s n, ⟨.expr (.num v s), n⟩ ∈ p.visits → v.isFinite)
    (hsurvives : ∀ v s n, ⟨.expr (.num v s), n⟩ ∈ p.visits → v.isFinite →
      Json.parse? (Json.float v).compact = some (.float v)) :
    Program.ofJson? p.toJson = some p ∧ p.toJson.Every (fun _ => True) Laid ∧
      (Json.parse? p.toJson.compact).bind Program.ofJson? =
        if p.toJson.nesting ≤ Json.maxDepth then some p else none := by
  have hspans : ∀ span ∈ p.outline.spans, span.Admitted Exact := by
    intro s hs
    rw [← byteLength_toList] at hsize
    exact ((Program.ofChars_nested h).located_of_mem s hs).admitted hsize
  have hnumbers : ∀ visit ∈ p.visits, visit.Admitted Exact := by
    rintro ⟨node, n⟩ hvisit v s rfl
    exact hsurvives v s n hvisit (hfinite v s n hvisit)
  have hexact : p.toJson.Every Exact Laid :=
    Program.toJson_every ⟨trivial, fun _ => trivial, fun _ => trivial⟩ hspans hnumbers
  refine ⟨p.ofJson?_toJson, ?_, ?_⟩
  · exact Program.toJson_every ⟨trivial, fun _ => trivial, fun _ => trivial⟩ (fun _ _ _ _ => trivial)
      fun _ _ _ _ _ => trivial
  · rw [parse?_compact hexact]
    split
    · exact p.ofJson?_toJson
    · rfl

/-- Most kinds of statements and expressions inside each other, with parts that are missing and parts that are not. -/
def variedSource : String :=
  "let a = 0.1, b; function f(x, y) \x7b if (x <= y) return; else return [x][1e21]; \x7d
for (let i = 0; ; i++) \x7b for (;;) ; \x7d
o.p['\\n\"'](x => x ? !y : f(3)).q = null && (b += true);"

/-- A number literal is finite and is read from its JSON text. -/
def Node.survives : Node → Bool
  | .expr (.num v _) => v.isFinite && match Json.parse? (Json.float v).compact with
    | some (.float w) => decide (w = v)
    | _ => false
  | _ => true

theorem json_roundTrip_variedSource : ∃ p, Program.parse variedSource = .ok p ∧
    variedSource.utf8ByteSize < wordSize ∧ p.toJson.nesting ≤ Json.maxDepth ∧
    (∀ v s n, ⟨.expr (.num v s), n⟩ ∈ p.visits → v.isFinite) ∧
    (∀ v s n, ⟨.expr (.num v s), n⟩ ∈ p.visits → v.isFinite →
      Json.parse? (Json.float v).compact = some (.float v)) ∧
    Program.ofJson? p.toJson = some p ∧ p.toJson.Every (fun _ => True) Laid ∧
    (Json.parse? p.toJson.compact).bind Program.ofJson? = some p := by
  have hall : (Program.parse variedSource).toOption.any (fun p => p.visits.all (·.node.survives) &&
      decide (p.toJson.nesting ≤ Json.maxDepth)) = true := by decide +kernel
  have hsize : variedSource.utf8ByteSize < wordSize := by decide +kernel
  cases h : Program.parse variedSource with
  | error e => rw [h] at hall; cases hall
  | ok p =>
    rw [h] at hall
    obtain ⟨hvisits, hnesting⟩ := Bool.and_eq_true_iff.1 hall
    have hnesting : p.toJson.nesting ≤ Json.maxDepth := of_decide_eq_true hnesting
    have hsound (v s n) (hvisit : ⟨.expr (.num v s), n⟩ ∈ p.visits) :
        v.isFinite ∧ Json.parse? (Json.float v).compact = some (.float v) := by
      have hnumber := Bool.and_eq_true_iff.1 (List.all_eq_true.1 hvisits _ hvisit)
      refine ⟨hnumber.1, ?_⟩
      have htext := hnumber.2
      split at htext
      · rename_i w hw
        rw [hw, of_decide_eq_true htext]
      · cases htext
    have hfinite : ∀ v s n, ⟨.expr (.num v s), n⟩ ∈ p.visits → v.isFinite :=
      fun v s n hvisit => (hsound v s n hvisit).1
    have hsurvives : ∀ v s n, ⟨.expr (.num v s), n⟩ ∈ p.visits → v.isFinite →
        Json.parse? (Json.float v).compact = some (.float v) := fun v s n hvisit _ => (hsound v s n hvisit).2
    have hround := Program.json_roundTrip h hsize hfinite hsurvives
    rw [if_pos hnesting] at hround
    exact ⟨p, rfl, hsize, hnesting, hfinite, hsurvives, hround⟩

end Stepwise

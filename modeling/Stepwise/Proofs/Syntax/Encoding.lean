import Stepwise.Syntax.Json

/-!
# Decoding an encoded tree

**`Program.ofJson?_toJson`**: decoding takes back what encoding writes, for every tree.

A record that is written with its span is `spanned members span`. It has one lemma for each way to look at a field, and
decoding a node is rewriting with them. `Optional` says the same of parts that may be missing. The number of steps that
decoding may take is the depth of the value, of which each node uses one (`node_fuel`).
-/

namespace Stepwise

open Json

/-! ## Fields of a record -/

/-- An object with a span, which is the last member unless it is zero. -/
def spanned (members : List (String × Json)) (span : Span) : Json := .obj (members ++ span.field)

section Fields

variable {members : List (String × Json)} {name : String} {α : Type}

theorem field?_spanned (h : name ≠ "span") (index : Nat) (span : Span) :
    (spanned members span).field? name index = (members.reverse.find? (·.1 == name)).map (·.2) := by
  show (obj (members ++ span.field)).get? name = _
  unfold Span.field
  split
  · rw [List.append_nil, Json.get?]
  · simp [Json.get?, Ne.symm h]

@[simp] theorem record?_spanned (arity : Nat) (members : List (String × Json)) (span : Span) :
    record? arity (spanned members span) = some (spanned members span) := rfl

@[simp] theorem part?_spanned (h : name ≠ "span") (index : Nat) (decode : Json → Option α) (span : Span) :
    part? name index decode (spanned members span) =
      (members.reverse.find? (·.1 == name)).bind fun field => decode field.2 := by
  unfold part?
  rw [field?_spanned h, Option.bind_map]
  rfl

/-- `j` is null and the part is missing, or `j` is something else that is decoded as the part. -/
def Optional (decode : Json → Option α) (j : Json) (part : Option α) : Prop :=
  (j = .null ∧ part = none) ∨ (j ≠ .null ∧ ∃ a, decode j = some a ∧ part = some a)

theorem Optional.spanned {decode : Json → Option α} {j : Json} {part : Option α} (hj : Optional decode j part)
    (h : name ≠ "span") (hfind : members.reverse.find? (·.1 == name) = some (name, j)) (index : Nat) (span : Span) :
    (spanned members span).optional? name index decode = some part := by
  have hfield : (Stepwise.spanned members span).field? name index = some j := by rw [field?_spanned h, hfind]; rfl
  unfold optional?
  rw [hfield]
  rcases hj with ⟨rfl, rfl⟩ | ⟨hne, a, ha, rfl⟩
  · rfl
  · cases j with
    | null => exact absurd rfl hne
    | _ =>
      show (decode _).map some = _
      rw [ha]
      rfl

theorem Span.ofJson?_toJson (s : Span) : Span.ofJson? s.toJson = some s := rfl

@[simp] theorem span?_spanned (h : ∀ field ∈ members, field.1 ≠ "span") (index : Nat) (span : Span) :
    span? index (spanned members span) = some span := by
  have hnone : members.reverse.find? (fun field => field.1 == "span") = none := by simpa using h
  have hget : (spanned members span).field? "span" index = if span = .zero then none else some span.toJson := by
    show (obj (members ++ span.field)).get? "span" = _
    unfold Span.field
    split <;> simp [Json.get?, hnone]
  unfold span? defaulted?
  rw [hget]
  by_cases hz : span = .zero
  · rw [if_pos hz, hz]
  · rw [if_neg hz]
    exact span.ofJson?_toJson

theorem tagged?_node (tag : String) {fields : List (String × Json)} (h : ∀ f ∈ fields, f.1 ≠ "t") (span : Span) :
    (node tag fields span).tagged? = some (.str tag, spanned (("t", .str tag) :: fields) span) := by
  have hnone : fields.reverse.find? (fun x => x.1 == "t") = none := by simpa using h
  show ((spanned (("t", .str tag) :: fields) span).field? "t" 0).map (·, _) = _
  rw [field?_spanned (by decide), List.reverse_cons, List.find?_append, hnone]
  rfl

theorem node?_node (cases : List String) (tag : String) {fields : List (String × Json)} (h : ∀ f ∈ fields, f.1 ≠ "t")
    (span : Span) : node? cases (node tag fields span) = some (tag, spanned (("t", .str tag) :: fields) span) := by
  unfold node?
  rw [tagged?_node tag h]
  rfl

theorem named?_node (tag : String) {fields : List (String × Json)} (h : ∀ f ∈ fields, f.1 ≠ "t") (span : Span) :
    (node tag fields span).named? = some (node tag fields span) := by
  unfold named?
  rw [tagged?_node tag h]

end Fields

/-! ## Depth -/

theorem membersDepth_le {n : Nat} {members : List (String × Json)} (h : membersDepth members ≤ n) :
    ∀ f ∈ members, f.2.depth ≤ n := by
  induction members with
  | nil => simp
  | cons f members ih =>
    rw [membersDepth] at h
    exact List.forall_mem_cons.2 ⟨by omega, ih (by omega)⟩

/-- The fields of a record are less deep than the record. -/
theorem spanned_fuel {members : List (String × Json)} {span : Span} {fuel : Nat}
    (h : (spanned members span).depth ≤ fuel) : ∃ k, fuel = k + 1 ∧ ∀ f ∈ members, f.2.depth ≤ k := by
  unfold spanned at h
  rw [depth] at h
  obtain ⟨k, rfl⟩ : ∃ k, fuel = k + 1 := ⟨fuel - 1, by omega⟩
  exact ⟨k, rfl, fun f hf => membersDepth_le (Nat.le_of_succ_le_succ h) f (List.mem_append_left _ hf)⟩

theorem node_fuel {tag : String} {fields : List (String × Json)} {span : Span} {fuel : Nat}
    (h : (node tag fields span).depth ≤ fuel) : ∃ k, fuel = k + 1 ∧ ∀ f ∈ fields, f.2.depth ≤ k := by
  obtain ⟨k, rfl, hk⟩ := spanned_fuel h
  exact ⟨k, rfl, fun f hf => hk f (List.mem_cons_of_mem _ hf)⟩

/-! ## Names -/

@[simp] theorem looseConstant?_str (s : String) : looseConstant? (.str s) = some s := rfl

@[simp] theorem BinaryOp.ofName?_name (op : BinaryOp) : BinaryOp.ofName? op.name = some op := by cases op <;> rfl

@[simp] theorem LogicalOp.ofName?_name (op : LogicalOp) : LogicalOp.ofName? op.name = some op := by cases op <;> rfl

@[simp] theorem UnaryOp.ofName?_name (op : UnaryOp) : UnaryOp.ofName? op.name = some op := by cases op <;> rfl

@[simp] theorem UpdateOp.ofName?_name (op : UpdateOp) : UpdateOp.ofName? op.name = some op := by cases op <;> rfl

@[simp] theorem AssignOp.ofName?_name (op : AssignOp) : AssignOp.ofName? op.name = some op := by cases op <;> rfl

@[simp] theorem VarKind.ofKeyword?_keyword (kind : VarKind) : VarKind.ofKeyword? kind.keyword = some kind := by
  cases kind <;> rfl

/-! ## Decoding -/

theorem list?_nil {α : Type} (decode : Json → Option α) : list? decode (.arr []) = some [] := rfl

theorem list?_cons {α : Type} {decode : Json → Option α} {j : Json} {js : List Json} {a : α} {as : List α}
    (hj : decode j = some a) (hjs : list? decode (.arr js) = some as) :
    list? decode (.arr (j :: js)) = some (a :: as) := by
  rw [list?] at hjs ⊢
  rw [List.mapM_cons, hj, hjs]
  rfl

theorem items_fuel {j : Json} {js : List Json} {fuel : Nat} (h : (Json.arr (j :: js)).depth ≤ fuel) :
    j.depth ≤ fuel ∧ (Json.arr js).depth ≤ fuel := by
  rw [depth, itemsDepth] at h
  rw [depth]
  omega

theorem list?_str (names : List String) : list? str? (.arr (names.map .str)) = some names := by
  induction names with
  | nil => rfl
  | cons name names ih => exact list?_cons rfl ih

theorem optional_ofOption (name : Option String) : Optional str? (.ofOption .str name) name := by
  cases name with
  | none => exact .inl ⟨rfl, rfl⟩
  | some name => exact .inr ⟨Json.noConfusion, name, rfl, rfl⟩

@[simp] theorem Expr.toJson_ne_null (e : Expr) : e.toJson ≠ .null := by cases e <;> exact Json.noConfusion

@[simp] theorem Stmt.toJson_ne_null (s : Stmt) : s.toJson ≠ .null := by cases s <;> exact Json.noConfusion

@[simp] theorem ForInit.toJson_ne_null (init : ForInit) : init.toJson ≠ .null := by
  cases init <;> exact Json.noConfusion

mutual

theorem Expr.decode?_toJson : ∀ (e : Expr) {fuel : Nat}, e.toJson.depth ≤ fuel → Expr.decode? fuel e.toJson = some e
  | .bool v s, _, h => by
    obtain ⟨k, rfl, -⟩ := node_fuel h
    rw [Expr.toJson, Expr.decode?, node?_node _ _ (by simp)]
    simp [bool?]
  | .num v s, _, h => by
    obtain ⟨k, rfl, -⟩ := node_fuel h
    rw [Expr.toJson, Expr.decode?, node?_node _ _ (by simp)]
    simp [float?]
  | .str v s, _, h => by
    obtain ⟨k, rfl, -⟩ := node_fuel h
    rw [Expr.toJson, Expr.decode?, node?_node _ _ (by simp)]
    simp [str?]
  | .null s, _, h => by
    obtain ⟨k, rfl, -⟩ := node_fuel h
    rw [Expr.toJson, Expr.decode?, node?_node _ _ (by simp)]
    simp
  | .ident name s, _, h => by
    obtain ⟨k, rfl, -⟩ := node_fuel h
    rw [Expr.toJson, Expr.decode?, node?_node _ _ (by simp)]
    simp [str?]
  | .member object key s, _, h => by
    obtain ⟨k, rfl, hk⟩ := node_fuel h
    simp only [List.forall_mem_cons] at hk
    have ho := object.decode?_toJson hk.1
    have hkey := key.decode?_toJson hk.2.1
    rw [Expr.toJson, Expr.decode?, node?_node _ _ (by simp)]
    simp [ho, hkey]
  | .call callee args s, _, h => by
    obtain ⟨k, rfl, hk⟩ := node_fuel h
    simp only [List.forall_mem_cons] at hk
    have hc := callee.decode?_toJson hk.1
    have ha := Expr.list?_toJson args hk.2.1
    rw [Expr.toJson, Expr.decode?, node?_node _ _ (by simp)]
    simp [hc, ha]
  | .binary op left right s, _, h => by
    obtain ⟨k, rfl, hk⟩ := node_fuel h
    simp only [List.forall_mem_cons] at hk
    have hl := left.decode?_toJson hk.2.1
    have hr := right.decode?_toJson hk.2.2.1
    rw [Expr.toJson, Expr.decode?, node?_node _ _ (by simp)]
    simp [hl, hr]
  | .logical op left right s, _, h => by
    obtain ⟨k, rfl, hk⟩ := node_fuel h
    simp only [List.forall_mem_cons] at hk
    have hl := left.decode?_toJson hk.2.1
    have hr := right.decode?_toJson hk.2.2.1
    rw [Expr.toJson, Expr.decode?, node?_node _ _ (by simp)]
    simp [hl, hr]
  | .unary op arg s, _, h => by
    obtain ⟨k, rfl, hk⟩ := node_fuel h
    simp only [List.forall_mem_cons] at hk
    have ha := arg.decode?_toJson hk.2.1
    rw [Expr.toJson, Expr.decode?, node?_node _ _ (by simp)]
    simp [ha]
  | .update op before arg s, _, h => by
    obtain ⟨k, rfl, hk⟩ := node_fuel h
    simp only [List.forall_mem_cons] at hk
    have ha := arg.decode?_toJson hk.2.2.1
    rw [Expr.toJson, Expr.decode?, node?_node _ _ (by simp)]
    simp [bool?, ha]
  | .assign op target value s, _, h => by
    obtain ⟨k, rfl, hk⟩ := node_fuel h
    simp only [List.forall_mem_cons] at hk
    have ht := target.decode?_toJson hk.2.1
    have hv := value.decode?_toJson hk.2.2.1
    rw [Expr.toJson, Expr.decode?, node?_node _ _ (by simp)]
    simp [ht, hv]
  | .ternary condition consequent alternate s, _, h => by
    obtain ⟨k, rfl, hk⟩ := node_fuel h
    simp only [List.forall_mem_cons] at hk
    have hc := condition.decode?_toJson hk.1
    have ht := consequent.decode?_toJson hk.2.1
    have ha := alternate.decode?_toJson hk.2.2.1
    rw [Expr.toJson, Expr.decode?, node?_node _ _ (by simp)]
    simp [hc, ht, ha]
  | .function fn, _, h => by
    obtain ⟨k, rfl, hk⟩ := node_fuel h
    simp only [List.forall_mem_cons] at hk
    have hf := fn.decode?_toJson hk.1
    rw [Expr.toJson, Expr.decode?, node?_node _ _ (by simp)]
    simp [hf]
  | .unsupported kind s, _, h => by
    obtain ⟨k, rfl, -⟩ := node_fuel h
    rw [Expr.toJson, Expr.decode?, node?_node _ _ (by simp)]
    simp [str?]

theorem Expr.list?_toJson : ∀ (es : List Expr) {fuel : Nat}, (Json.arr (Expr.listToJson es)).depth ≤ fuel →
    list? (Expr.decode? fuel) (.arr (Expr.listToJson es)) = some es
  | [], _, _ => list?_nil _
  | e :: es, _, h => list?_cons (e.decode?_toJson (items_fuel h).1) (Expr.list?_toJson es (items_fuel h).2)

theorem MemberKey.decode?_toJson : ∀ (key : MemberKey) {fuel : Nat}, key.toJson.depth ≤ fuel →
    MemberKey.decode? fuel key.toJson = some key
  | .fixed name, _, h => by
    obtain ⟨k, rfl, -⟩ := node_fuel h
    rw [MemberKey.toJson, MemberKey.decode?, node?_node _ _ (by simp)]
    simp [str?]
  | .computed e, _, h => by
    obtain ⟨k, rfl, hk⟩ := node_fuel h
    simp only [List.forall_mem_cons] at hk
    have he := e.decode?_toJson hk.1
    rw [MemberKey.toJson, MemberKey.decode?, node?_node _ _ (by simp)]
    simp [he]

theorem FunctionDef.decode?_toJson : ∀ (fn : FunctionDef) {fuel : Nat}, fn.toJson.depth ≤ fuel →
    FunctionDef.decode? fuel fn.toJson = some fn
  | .mk name params body arrow s, _, h => by
    obtain ⟨k, rfl, hk⟩ := spanned_fuel h
    simp only [List.forall_mem_cons] at hk
    have hb := body.decode?_toJson hk.2.2.1
    show FunctionDef.decode? (k + 1) (spanned _ s) = _
    simp [FunctionDef.decode?, (optional_ofOption name).spanned, list?_str, hb, bool?]

theorem Declarator.decode?_toJson : ∀ (d : Declarator) {fuel : Nat}, d.toJson.depth ≤ fuel →
    Declarator.decode? fuel d.toJson = some d
  | .mk name none s, _, h => by
    obtain ⟨k, rfl, hk⟩ := spanned_fuel h
    have hi : Optional (Expr.decode? k) .null none := .inl ⟨rfl, rfl⟩
    show Declarator.decode? (k + 1) (spanned _ s) = _
    simp [Declarator.decode?, hi.spanned, str?]
  | .mk name (some e) s, _, h => by
    obtain ⟨k, rfl, hk⟩ := spanned_fuel h
    simp only [List.forall_mem_cons] at hk
    have hi : Optional (Expr.decode? k) e.toJson (some e) := .inr ⟨e.toJson_ne_null, e, e.decode?_toJson hk.2.1, rfl⟩
    show Declarator.decode? (k + 1) (spanned _ s) = _
    simp [Declarator.decode?, hi.spanned, str?]

theorem Declarator.list?_toJson : ∀ (ds : List Declarator) {fuel : Nat},
    (Json.arr (Declarator.listToJson ds)).depth ≤ fuel →
    list? (Declarator.decode? fuel) (.arr (Declarator.listToJson ds)) = some ds
  | [], _, _ => list?_nil _
  | d :: ds, _, h => list?_cons (d.decode?_toJson (items_fuel h).1) (Declarator.list?_toJson ds (items_fuel h).2)

theorem ForInit.decode?_toJson : ∀ (init : ForInit) {fuel : Nat}, init.toJson.depth ≤ fuel →
    ForInit.decode? fuel init.toJson = some init
  | .declare kind decls s, _, h => by
    obtain ⟨k, rfl, hk⟩ := node_fuel h
    simp only [List.forall_mem_cons] at hk
    have hd := Declarator.list?_toJson decls hk.2.1
    rw [ForInit.toJson, ForInit.decode?, node?_node _ _ (by simp)]
    simp [hd]
  | .expr e, _, h => by
    obtain ⟨k, rfl, hk⟩ := node_fuel h
    simp only [List.forall_mem_cons] at hk
    have he := e.decode?_toJson hk.1
    rw [ForInit.toJson, ForInit.decode?, node?_node _ _ (by simp)]
    simp [he]

theorem Stmt.decode?_toJson : ∀ (s : Stmt) {fuel : Nat}, s.toJson.depth ≤ fuel → Stmt.decode? fuel s.toJson = some s
  | .block body s, _, h => by
    obtain ⟨k, rfl, hk⟩ := node_fuel h
    simp only [List.forall_mem_cons] at hk
    have hb := Stmt.list?_toJson body hk.1
    rw [Stmt.toJson, Stmt.decode?, node?_node _ _ (by simp)]
    simp [hb]
  | .declare kind decls s, _, h => by
    obtain ⟨k, rfl, hk⟩ := node_fuel h
    simp only [List.forall_mem_cons] at hk
    have hd := Declarator.list?_toJson decls hk.2.1
    rw [Stmt.toJson, Stmt.decode?, node?_node _ _ (by simp)]
    simp [hd]
  | .function fn, _, h => by
    obtain ⟨k, rfl, hk⟩ := node_fuel h
    simp only [List.forall_mem_cons] at hk
    have hf := fn.decode?_toJson hk.1
    rw [Stmt.toJson, Stmt.decode?, node?_node _ _ (by simp)]
    simp [hf]
  | .expr e s, _, h => by
    obtain ⟨k, rfl, hk⟩ := node_fuel h
    simp only [List.forall_mem_cons] at hk
    have he := e.decode?_toJson hk.1
    rw [Stmt.toJson, Stmt.decode?, node?_node _ _ (by simp)]
    simp [he]
  | .ifElse test thenS elseS s, _, h => by
    obtain ⟨k, rfl, hk⟩ := node_fuel h
    simp only [List.forall_mem_cons] at hk
    have ht := test.decode?_toJson hk.1
    have hthen := thenS.decode?_toJson hk.2.1
    have helse := Stmt.optional_toJson elseS hk.2.2.1
    rw [Stmt.toJson, Stmt.decode?, node?_node _ _ (by simp)]
    simp [ht, hthen, helse.spanned]
  | .for init test update body s, _, h => by
    obtain ⟨k, rfl, hk⟩ := node_fuel h
    simp only [List.forall_mem_cons] at hk
    have hi := ForInit.optional_toJson init hk.1
    have ht := Expr.optional_toJson test hk.2.1
    have hu := Expr.optional_toJson update hk.2.2.1
    have hb := body.decode?_toJson hk.2.2.2.1
    rw [Stmt.toJson, Stmt.decode?, node?_node _ _ (by simp)]
    simp [hi.spanned, ht.spanned, hu.spanned, hb]
  | .ret value s, _, h => by
    obtain ⟨k, rfl, hk⟩ := node_fuel h
    simp only [List.forall_mem_cons] at hk
    have hv := Expr.optional_toJson value hk.1
    rw [Stmt.toJson, Stmt.decode?, node?_node _ _ (by simp)]
    simp [hv.spanned]
  | .empty s, _, h => by
    obtain ⟨k, rfl, -⟩ := node_fuel h
    rw [Stmt.toJson, Stmt.decode?, node?_node _ _ (by simp)]
    simp
  | .unsupported kind s, _, h => by
    obtain ⟨k, rfl, -⟩ := node_fuel h
    rw [Stmt.toJson, Stmt.decode?, node?_node _ _ (by simp)]
    simp [str?]

theorem Stmt.list?_toJson : ∀ (ss : List Stmt) {fuel : Nat}, (Json.arr (Stmt.listToJson ss)).depth ≤ fuel →
    list? (Stmt.decode? fuel) (.arr (Stmt.listToJson ss)) = some ss
  | [], _, _ => list?_nil _
  | s :: ss, _, h => list?_cons (s.decode?_toJson (items_fuel h).1) (Stmt.list?_toJson ss (items_fuel h).2)

theorem Expr.optional_toJson : ∀ (e : Option Expr) {fuel : Nat}, (Expr.optionToJson e).depth ≤ fuel →
    Optional (Expr.decode? fuel) (Expr.optionToJson e) e
  | none, _, _ => .inl ⟨rfl, rfl⟩
  | some e, _, h => .inr ⟨e.toJson_ne_null, e, e.decode?_toJson h, rfl⟩

theorem Stmt.optional_toJson : ∀ (s : Option Stmt) {fuel : Nat}, (Stmt.optionToJson s).depth ≤ fuel →
    Optional (Stmt.decode? fuel) (Stmt.optionToJson s) s
  | none, _, _ => .inl ⟨rfl, rfl⟩
  | some s, _, h => .inr ⟨s.toJson_ne_null, s, s.decode?_toJson h, rfl⟩

theorem ForInit.optional_toJson : ∀ (init : Option ForInit) {fuel : Nat}, (ForInit.optionToJson init).depth ≤ fuel →
    Optional (ForInit.decode? fuel) (ForInit.optionToJson init) init
  | none, _, _ => .inl ⟨rfl, rfl⟩
  | some init, _, h => .inr ⟨init.toJson_ne_null, init, init.decode?_toJson h, rfl⟩

end

theorem Stmt.named?_toJson (s : Stmt) : s.toJson.named? = some s.toJson := by
  cases s <;> exact named?_node _ (by simp) _

/-- Decoding takes back what encoding writes. -/
theorem Program.ofJson?_toJson (p : Program) : Program.ofJson? p.toJson = some p := by
  have hdepth : p.body.toJson.depth ≤ p.toJson.depth := by
    show _ ≤ max _ _ + 1
    omega
  show (p.body.toJson.named?.bind fun body => 
    (Stmt.decode? p.toJson.depth body).bind fun s => some (⟨s, p.span⟩ : Program)) = _
  rw [Stmt.named?_toJson, Option.bind_some, Stmt.decode?_toJson _ hdepth]
  rfl

end Stepwise

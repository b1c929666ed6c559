import Stepwise.Proofs.Check.Walk
import Stepwise.Proofs.Number.Printed
import Stepwise.Proofs.Number.Whole
import Stepwise.Proofs.Syntax.Proper

/-!
# Expressions that can be read again

`Expr.render` cuts the bodies of functions and the contents of unsupported literals and writes infinite numbers as a
name. A node of any other kind is written in full (`Expr.isComplete`), but not always so that it can be read: line feeds
are put into strings as they are, and a point is joined to the digits of a whole number, where it belongs to the number.

* `Expr.isUnreadable`: a string with a line feed, or an access such as `1 .x`, whose text is no expression. An access
  such as `1 .e5` has the text of a number.
* `Expr.isWritable`: a node that is none of these.

`Expr.Legible` is what reading the text needs, one rule for every form of expression; a proper expression is legible
when its nodes are complete and none is unreadable (`Expr.legible`). `Expr.reread` is what its text is then read as, if
it is: an access that has become a number cannot be assigned to. An expression of writable nodes is read as itself
(`Expr.reread_of_writable`), and otherwise only such an assignment is lost (`Expr.reread_eq_none_iff`).
-/

namespace Stepwise

/-! ## Nodes -/

/-- The text of the number is a number token, and the number is its value. -/
def ReadsBack (v : Float) : Prop :=
  Scanner.number (numberText v).toList = some ((numberText v).toList, []) ∧ readDecimal? (numberText v).toList = some v

theorem ReadsBack.ne_nil {v : Float} (h : ReadsBack v) : (numberText v).toList ≠ [] := by
  intro hnil
  have hscan := h.1
  rw [hnil] at hscan
  cases hscan

def isWhole (v : Float) : Bool := (Magnitude.ofFloat v).toNat?.isSome

namespace Expr

/-- The node is no function or unsupported literal, no infinite number, no string with a line feed, and no access by
name to a whole number below `10 ^ 21`. -/
def isWritable : Expr → Bool
  | .function _ | .unsupported .. => false
  | .num v _ => ! v.isInf
  | .str s _ => ! s.toList.contains '\n'
  | .member (.num v _) (.fixed _) _ => ! (isWhole v && v < 1e21)
  | _ => true

/-- The node is no function or unsupported literal and no infinite number, so its text is not cut. -/
def isComplete : Expr → Bool
  | .function _ | .unsupported .. => false
  | .num v _ => ! v.isInf
  | _ => true

/-- The node is a string with a line feed, or an access by name to a whole number below `10 ^ 21`; a name like `e5` is
none, because `1.e5` is a number. -/
def isUnreadable : Expr → Bool
  | .str v _ => v.toList.contains '\n'
  | .member (.num v _) (.fixed name) _ => isWhole v && v < 1e21 && ! Scanner.isPower name.toList
  | _ => false

/-- The node assigns to an access by name to a whole number below `10 ^ 21`, whose text is a number at best. -/
def losesTarget : Expr → Bool
  | .assign _ (.member (.num v _) (.fixed _) _) _ _ => isWhole v && v < 1e21
  | _ => false

/-- The text of the expression is digits alone, so a point behind it belongs to the number. -/
def isDigits : Expr → Bool
  | .num v _ => (numberText v).toList.all Char.isDigit
  | _ => false

theorem isUnreadable_fixed {object : Expr} {name : String} {s : Span}
    (h : (Expr.member object (.fixed name) s).isUnreadable = true) :
    ∃ v t, object = .num v t ∧ isWhole v = true ∧ v < 1e21 ∧ Scanner.isPower name.toList = false := by
  cases object with
  | num v t =>
    simp only [isUnreadable, Bool.and_eq_true, decide_eq_true_eq, Bool.not_eq_true'] at h
    exact ⟨v, t, rfl, h.1.1, h.1.2, h.2⟩
  | _ => cases h

section

variable {v : Float} {s : Span} (hp : (Expr.num v s).Proper) (hc : (Expr.num v s).isComplete = true)

include hp hc

/-- A number of a script that is not infinite reads back. -/
theorem readsBack_of_proper : ReadsBack v := by
  obtain ⟨d, rfl⟩ := hp
  have hinf : d.toFloat.isInf = false := by simpa [isComplete] using hc
  exact ⟨number_numberText (Decimal.unsigned_toFloat d) hinf, readDecimal?_numberText (Decimal.unsigned_toFloat d) hinf⟩

/-- Whole numbers below `10 ^ 21` are written as digits alone, and no others are. -/
theorem isDigits_num : (Expr.num v s).isDigits = (isWhole v && v < 1e21) := by
  have hread := (readsBack_of_proper hp hc).2
  obtain ⟨d, rfl⟩ := hp
  have hinf : d.toFloat.isInf = false := by simpa [isComplete] using hc
  rw [isDigits]
  by_cases hwhole : isWhole d.toFloat = true ∧ d.toFloat < 1e21
  · rw [numberText_all_digits hinf hwhole.1 hwhole.2]
    simp [hwhole]
  · rw [numberText_not_all_digits hread fun h => Decimal.le_abs_toFloat (by decide) fun hlt => hwhole ⟨h, hlt⟩]
    simpa using (not_and.1 hwhole)

end

end Expr

/-! ## Legible expressions -/

/-- The expression is written in a way that can be read. -/
inductive Expr.Legible : Expr → Prop where
  | bool (v : Bool) (s : Span) : Legible (.bool v s)
  | num {v : Float} {s : Span} : ReadsBack v → Legible (.num v s)
  | str {v : String} {s : Span} : '\n' ∉ v.toList → Legible (.str v s)
  | null (s : Span) : Legible (.null s)
  | ident {name : String} {s : Span} : Scanner.IsIdentifier name.toList → Legible (.ident name s)
  | fixed {object : Expr} {name : String} {s : Span} : Legible object →
      (object.isDigits = true → Scanner.isPower name.toList = true) → Scanner.IsWord name.toList →
      Legible (.member object (.fixed name) s)
  | computed {object key : Expr} {s : Span} : Legible object → Legible key → Legible (.member object (.computed key) s)
  | call {callee : Expr} {args : List Expr} {s : Span} : Legible callee → (∀ a ∈ args, Legible a) →
      Legible (.call callee args s)
  | binary {op : BinaryOp} {left right : Expr} {s : Span} : Legible left → Legible right →
      Legible (.binary op left right s)
  | logical {op : LogicalOp} {left right : Expr} {s : Span} : Legible left → Legible right →
      Legible (.logical op left right s)
  | unary {op : UnaryOp} {arg : Expr} {s : Span} : Legible arg → Legible (.unary op arg s)
  | update {op : UpdateOp} {before : Bool} {arg : Expr} {s : Span} : Legible arg → Legible (.update op before arg s)
  | assign {op : AssignOp} {target value : Expr} {s : Span} : target.isTarget → Legible target → Legible value →
      Legible (.assign op target value s)
  | ternary {condition consequent alternate : Expr} {s : Span} : Legible condition → Legible consequent →
      Legible alternate → Legible (.ternary condition consequent alternate s)

mutual

/-- What the text of a legible expression is read as, up to spans, if it is read: an access by name to digits is the
number that its text spells, and an assignment needs a target. -/
def Expr.reread : Expr → Option Expr
  | .member object (.fixed name) s =>
    if object.isDigits then (readDecimal? (object.chars ++ '.' :: name.toList)).map (.num · s)
    else object.reread.map (.member · (.fixed name) s)
  | .member object (.computed key) s =>
    object.reread.bind fun object => key.reread.map fun key => .member object (.computed key) s
  | .call callee args s => callee.reread.bind fun callee => (Expr.rereads args).map fun args => .call callee args s
  | .binary op left right s => left.reread.bind fun left => right.reread.map fun right => .binary op left right s
  | .logical op left right s => left.reread.bind fun left => right.reread.map fun right => .logical op left right s
  | .unary op arg s => arg.reread.map fun arg => .unary op arg s
  | .update op before arg s => arg.reread.map fun arg => .update op before arg s
  | .assign op target value s => target.reread.bind fun target =>
    if target.isTarget then value.reread.map fun value => .assign op target value s else none
  | .ternary condition consequent alternate s => condition.reread.bind fun condition =>
    consequent.reread.bind fun consequent => alternate.reread.map fun alternate =>
      .ternary condition consequent alternate s
  | e => some e

def Expr.rereads : List Expr → Option (List Expr)
  | [] => some []
  | e :: es => e.reread.bind fun e => (Expr.rereads es).map fun es => e :: es

end

/-! ## Proper expressions -/

theorem Expr.ListProper.of_mem {es : List Expr} (h : Expr.ListProper es) {e : Expr} (he : e ∈ es) : e.Proper := by
  induction es with
  | nil => cases he
  | cons a es ih =>
    rcases List.mem_cons.1 he with rfl | he
    · exact h.1
    · exact ih h.2 he

theorem Expr.Proper.part {e c : Expr} (h : e.Proper) (hc : .expr c ∈ e.parts) : c.Proper := by
  cases e with
  | member object key s =>
    cases key with
    | fixed name =>
      obtain rfl : c = object := by simpa [parts, MemberKey.expr?] using hc
      exact h.1
    | computed key =>
      obtain rfl | rfl : c = object ∨ c = key := by simpa [parts, MemberKey.expr?] using hc
      · exact h.1
      · exact h.2
  | call callee args s =>
    obtain rfl | hc : c = callee ∨ c ∈ args := by simpa [parts] using hc
    · exact h.1
    · exact h.2.of_mem hc
  | binary op left right s =>
    obtain rfl | rfl : c = left ∨ c = right := by simpa [parts] using hc
    · exact h.1
    · exact h.2
  | logical op left right s =>
    obtain rfl | rfl : c = left ∨ c = right := by simpa [parts] using hc
    · exact h.1
    · exact h.2
  | unary op arg s =>
    obtain rfl : c = arg := by simpa [parts] using hc
    exact h
  | update op before arg s =>
    obtain rfl : c = arg := by simpa [parts] using hc
    exact h
  | assign op target value s =>
    obtain rfl | rfl : c = target ∨ c = value := by simpa [parts] using hc
    · exact h.2.1
    · exact h.2.2
  | ternary condition consequent alternate s =>
    obtain rfl | rfl | rfl : c = condition ∨ c = consequent ∨ c = alternate := by simpa [parts] using hc
    · exact h.1
    · exact h.2.1
    · exact h.2.2
  | function fn => simp [parts] at hc
  | _ => cases hc

/-- The node is written in full, and nothing in its own text keeps it from being read. -/
structure Expr.Plain (e : Expr) : Prop where
  complete : e.isComplete = true
  readable : e.isUnreadable = false

theorem Expr.plain_of_isWritable {e : Expr} (h : e.isWritable = true) : e.Plain where
  complete := by
    cases e with
    | num v s => exact h
    | function fn | unsupported kind s => cases h
    | _ => rfl
  readable := by
    refine Bool.eq_false_iff.2 fun hu => ?_
    cases e with
    | str v s =>
      rw [isUnreadable] at hu
      rw [isWritable, hu] at h
      cases h
    | member object key s =>
      cases key with
      | fixed name =>
        obtain ⟨v, t, rfl, hwhole, hlt, -⟩ := isUnreadable_fixed hu
        simp [isWritable, hwhole, hlt] at h
      | computed key => simp [isUnreadable] at hu
    | _ => cases hu

section

variable {e : Expr} {depth : Nat}

/-- Proper expressions whose nodes have `P`, by induction on their parts. -/
theorem Expr.Proper.induction {P motive : Expr → Prop} (hfn : ∀ fn, ¬ P (.function fn))
    (step : ∀ e, e.Proper → EveryExpr P (e.visits depth) → (∀ c, .expr c ∈ e.parts → motive c) → motive e)
    (hp : e.Proper) (h : EveryExpr P (e.visits depth)) : motive e := by
  refine EveryExpr.induction (motive := fun e => e.Proper → motive e) hfn (fun e he hparts hp => ?_) h hp
  exact step e hp he fun c hc => hparts c hc (hp.part hc)

/-- An access by name to digits has the text of a number if it is plain. -/
theorem Expr.isPower_of_isDigits {object : Expr} {name : String} {s : Span}
    (hp : (Expr.member object (.fixed name) s).Proper)
    (h : EveryExpr Expr.Plain ((Expr.member object (.fixed name) s).visits depth)) (hdigits : object.isDigits = true) :
    Scanner.isPower name.toList = true := by
  have hc := (h.part (c := object) (by simp [parts])).self.complete
  have hr := h.self.readable
  cases object with
  | num v t =>
    rw [isDigits_num hp.1 hc] at hdigits
    simpa [isUnreadable, hdigits] using hr
  | _ => cases hdigits

/-- A proper expression of plain nodes is legible. -/
theorem Expr.legible (hp : e.Proper) (h : EveryExpr Expr.Plain (e.visits depth)) : e.Legible := by
  refine hp.induction (fun fn hfn => Bool.false_ne_true hfn.complete) (fun e hp h hparts => ?_) h
  cases e with
  | bool v s => exact .bool v s
  | num v s => exact .num (readsBack_of_proper hp h.self.complete)
  | str v s => exact .str (by simpa [isUnreadable] using h.self.readable)
  | null s => exact .null s
  | ident name s => exact .ident hp
  | member object key s =>
    have ho : object.Legible := hparts object (by simp [parts])
    cases key with
    | fixed name => exact .fixed ho (isPower_of_isDigits hp h) hp.2
    | computed key => exact .computed ho (hparts key (by simp [parts, MemberKey.expr?]))
  | call callee args s =>
    exact .call (hparts callee (by simp [parts])) fun a ha => hparts a (by simp [parts, ha])
  | binary op left right s => exact .binary (hparts left (by simp [parts])) (hparts right (by simp [parts]))
  | logical op left right s => exact .logical (hparts left (by simp [parts])) (hparts right (by simp [parts]))
  | unary op arg s => exact .unary (hparts arg (by simp [parts]))
  | update op before arg s => exact .update (hparts arg (by simp [parts]))
  | assign op target value s =>
    exact .assign hp.1 (hparts target (by simp [parts])) (hparts value (by simp [parts]))
  | ternary condition consequent alternate s =>
    exact .ternary (hparts condition (by simp [parts])) (hparts consequent (by simp [parts]))
      (hparts alternate (by simp [parts]))
  | function fn => cases h.self.complete
  | unsupported kind s => cases h.self.complete

/-! ## What is read again -/

theorem Expr.rereads_eq_self {es : List Expr} (h : ∀ e ∈ es, e.reread = some e) : Expr.rereads es = some es := by
  induction es with
  | nil => rfl
  | cons e es ih =>
    obtain ⟨he, hes⟩ := List.forall_mem_cons.1 h
    rw [Expr.rereads, he, ih hes]
    rfl

/-- An expression of writable nodes is read as itself. -/
theorem Expr.reread_of_writable (hp : e.Proper) (h : EveryExpr (·.isWritable = true) (e.visits depth)) :
    e.reread = some e := by
  refine hp.induction (motive := fun e => e.reread = some e) (fun fn hfn => Bool.false_ne_true hfn)
    (fun e hp h hparts => ?_) h
  cases e with
  | member object key s =>
    have ho : object.reread = some object := hparts object (by simp [parts])
    cases key with
    | fixed name =>
      have hc := (plain_of_isWritable (h.part (c := object) (by simp [parts])).self).complete
      have hpoint : object.isDigits = false := by
        cases object with
        | num v t =>
          have hself := h.self
          rw [isWritable, Bool.not_eq_true'] at hself
          rw [isDigits_num hp.1 hc, hself]
        | _ => rfl
      rw [reread, hpoint, ho]
      rfl
    | computed key =>
      rw [reread, ho, hparts key (by simp [parts, MemberKey.expr?])]
      rfl
  | call callee args s =>
    rw [reread, hparts callee (by simp [parts]), rereads_eq_self fun a ha => hparts a (by simp [parts, ha])]
    rfl
  | binary op left right s =>
    rw [reread, hparts left (by simp [parts]), hparts right (by simp [parts])]
    rfl
  | logical op left right s =>
    rw [reread, hparts left (by simp [parts]), hparts right (by simp [parts])]
    rfl
  | unary op arg s =>
    rw [reread, hparts arg (by simp [parts])]
    rfl
  | update op before arg s =>
    rw [reread, hparts arg (by simp [parts])]
    rfl
  | assign op target value s =>
    rw [reread, hparts target (by simp [parts]), hparts value (by simp [parts])]
    exact if_pos hp.1
  | ternary condition consequent alternate s =>
    rw [reread, hparts condition (by simp [parts]), hparts consequent (by simp [parts]),
      hparts alternate (by simp [parts])]
    rfl
  | _ => rfl

/-- An access by name to digits is read as a number. -/
theorem Expr.reread_of_isDigits {object : Expr} {name : String} {s : Span}
    (hp : (Expr.member object (.fixed name) s).Proper)
    (h : EveryExpr Expr.Plain ((Expr.member object (.fixed name) s).visits depth)) (hdigits : object.isDigits = true) :
    ∃ v, (Expr.member object (.fixed name) s).reread = some (.num v s) := by
  have hpower := isPower_of_isDigits hp h hdigits
  have hc := (h.part (c := object) (by simp [parts])).self.complete
  cases object with
  | num v t =>
    have hne := (readsBack_of_proper hp.1 hc).ne_nil
    have hscan : Scanner.number ((numberText v).toList ++ '.' :: (name.toList ++ [])) = _ :=
      Scanner.number_power hne hdigits hp.2 hpower rfl
    obtain ⟨w, hw⟩ := readDecimal?_number hscan
    refine ⟨w, ?_⟩
    rw [reread, if_pos hdigits, Expr.chars, hw]
    rfl
  | _ => cases hdigits

/-- What the target of an assignment is read as is a target, unless it was an access by name to digits. -/
theorem Expr.isTarget_of_reread {op : AssignOp} {target value t : Expr} {s : Span}
    (hp : (Expr.assign op target value s).Proper) (h : EveryExpr Expr.Plain (target.visits depth))
    (ht : target.reread = some t) : t.isTarget = ! (Expr.assign op target value s).losesTarget := by
  obtain ⟨htarget, hp, -⟩ := hp
  cases target with
  | ident name s => cases ht; rfl
  | member object key u =>
    cases key with
    | computed key =>
      rw [reread] at ht
      obtain ⟨a, -, ht⟩ := Option.bind_eq_some_iff.1 ht
      obtain ⟨b, -, rfl⟩ := Option.map_eq_some_iff.1 ht
      cases object <;> rfl
    | fixed name =>
      have hloses : (Expr.assign op (.member object (.fixed name) u) value s).losesTarget = object.isDigits := by
        cases object with
        | num v r => exact (isDigits_num hp.1 (h.part (c := .num v r) (by simp [parts])).self.complete).symm
        | _ => rfl
      have hkind : t.isTarget = ! object.isDigits := by
        cases hdigits : object.isDigits with
        | true =>
          obtain ⟨v, hv⟩ := reread_of_isDigits hp h hdigits
          cases hv.symm.trans ht
          rfl
        | false =>
          rw [reread, hdigits] at ht
          obtain ⟨a, -, rfl⟩ := Option.map_eq_some_iff.1 ht
          rfl
      rw [hkind, hloses]
  | _ => cases htarget

theorem bind_map_eq_none {α β γ : Type} {a : Option α} {b : Option β} {f : α → β → γ} :
    (a.bind fun x => b.map (f x)) = none ↔ a = none ∨ b = none := by
  cases a <;> simp

theorem Expr.rereads_eq_none_iff {es : List Expr} : Expr.rereads es = none ↔ ∃ e ∈ es, e.reread = none := by
  induction es with
  | nil => simp [Expr.rereads]
  | cons e es ih => rw [Expr.rereads, bind_map_eq_none, ih, List.exists_mem_cons_iff]

/-- An expression is not read again if it loses its target, or if one of its parts is not read again. -/
theorem Expr.reread_eq_none_iff_parts (hp : e.Proper) (h : EveryExpr Expr.Plain (e.visits depth)) :
    e.reread = none ↔ e.losesTarget = true ∨ ∃ c, .expr c ∈ e.parts ∧ c.reread = none := by
  cases e with
  | member object key s =>
    cases key with
    | fixed name =>
      cases hdigits : object.isDigits with
      | true =>
        obtain ⟨v, hv⟩ := reread_of_isDigits hp h hdigits
        rw [hv]
        cases object with
        | num w u => simp [parts, MemberKey.expr?, losesTarget, reread]
        | _ => cases hdigits
      | false => simp [reread, hdigits, parts, MemberKey.expr?, losesTarget]
    | computed key =>
      rw [reread, bind_map_eq_none]
      simp [parts, MemberKey.expr?, losesTarget]
  | call callee args s =>
    rw [reread, bind_map_eq_none, rereads_eq_none_iff]
    simp [parts, losesTarget]
  | binary op left right s | logical op left right s =>
    rw [reread, bind_map_eq_none]
    simp [parts, losesTarget]
  | unary op arg s | update op before arg s => simp [reread, parts, losesTarget]
  | assign op target value s =>
    rw [reread]
    cases htarget : target.reread with
    | none => simp [parts, htarget]
    | some t =>
      have hloses := isTarget_of_reread hp (h.part (c := target) (by simp [parts])) htarget
      cases hl : (Expr.assign op target value s).losesTarget <;> simp [parts, htarget, hloses, hl]
  | ternary condition consequent alternate s =>
    rw [reread]
    cases hc : condition.reread with
    | none => simp [parts, hc]
    | some c =>
      rw [Option.bind_some, bind_map_eq_none]
      simp [parts, hc, losesTarget]
  | function fn => cases h.self.complete
  | _ => simp [reread, parts, losesTarget]

/-- A proper expression of plain nodes is read again unless one of them loses its target. -/
theorem Expr.reread_eq_none_iff (hp : e.Proper) (h : EveryExpr Expr.Plain (e.visits depth)) :
    e.reread = none ↔ SomeExpr (·.losesTarget = true) (e.visits depth) := by
  refine hp.induction
    (motive := fun e => e.reread = none ↔ SomeExpr (·.losesTarget = true) (e.visits depth))
    (fun fn hfn => Bool.false_ne_true hfn.complete) (fun e hp h hparts => ?_) h
  have he : ∀ fn, e ≠ .function fn := by
    rintro fn rfl
    cases h.self.complete
  rw [reread_eq_none_iff_parts hp h, SomeExpr.iff_parts he]
  exact or_congr_right (exists_congr fun c => and_congr_right fun hc => hparts c hc)

end

end Stepwise

import Stepwise.Proofs.Grammar.Derivation
import Stepwise.Syntax.Parse

/-!
# What is read is proper

An expression that was read from a text is more than a tree: its names are identifiers, the names after a point are
words, only names and members are assigned to, and its number literals are values of numerals without a sign
(`Expr.Proper`). Every expression of a derived tree is proper (`Expr.ofTree_proper`), and so is every expression that
`Expr.parse` returns (`Expr.parse_proper`). Functions are not looked into.
-/

namespace Stepwise

mutual

/-- The names, targets and numbers of an expression are those of a text. -/
def Expr.Proper : Expr → Prop
  | .bool .. | .str .. | .null _ | .function _ | .unsupported .. => True
  | .num v _ => ∃ d : Decimal, v = d.toFloat
  | .ident name _ => Scanner.IsIdentifier name.toList
  | .member object key _ => object.Proper ∧ key.Proper
  | .call callee args _ => callee.Proper ∧ Expr.ListProper args
  | .binary _ left right _ | .logical _ left right _ => left.Proper ∧ right.Proper
  | .unary _ arg _ | .update _ _ arg _ => arg.Proper
  | .assign _ target value _ => target.isTarget ∧ target.Proper ∧ value.Proper
  | .ternary condition consequent alternate _ => condition.Proper ∧ consequent.Proper ∧ alternate.Proper

def Expr.ListProper : List Expr → Prop
  | [] => True
  | e :: es => e.Proper ∧ Expr.ListProper es

def MemberKey.Proper : MemberKey → Prop
  | .fixed name => Scanner.IsWord name.toList
  | .computed e => e.Proper

end

/-! ## Tokens -/

theorem ok_of_bind {ε α β : Type} {x : Except ε α} {f : α → Except ε β} {b : β} (h : x >>= f = .ok b) :
    ∃ a, x = .ok a ∧ f a = .ok b := by
  cases x with
  | error e => cases h
  | ok a => exact ⟨a, rfl, h⟩

theorem bind_of_ok {ε α β : Type} {x : Except ε α} {a : α} (h : x = .ok a) {f : α → Except ε β} : x >>= f = f a := by
  rw [h]
  rfl

/-- A number literal has no sign. -/
theorem readDecimal?_of_number {cs l rest : List Char} {v : Float} (hl : Scanner.number cs = some (l, rest))
    (hv : readDecimal? l = some v) : ∃ d : Decimal, v = d.toFloat := by
  obtain ⟨hcs, hne⟩ := Scanner.divides_number _ _ _ hl
  unfold readDecimal? at hv
  split at hv
  · rw [hcs] at hl
    exact absurd (Scanner.number_head hl) (by decide)
  all_goals
    obtain ⟨d, -, hd⟩ := Option.map_eq_some_iff.1 hv
    exact ⟨d, hd.symm⟩

theorem Expr.ofToken_proper {r : Rule} {start stop : Nat} {l : List Char} {span : Span} {e : Expr}
    (ht : Tree.Derived (.token r start stop l)) (h : Expr.ofToken r l span = .ok e) : e.Proper := by
  obtain ⟨scan, cs, rest, hr, hs⟩ := ht.lexeme
  unfold Expr.ofToken at h
  split at h
  · cases h
    cases hr
    show Scanner.IsIdentifier (String.ofList l).toList
    rw [String.toList_ofList]
    exact Scanner.isIdentifier_of_identifier hs
  · cases hr
    split at h
    · next v hv => cases h; exact readDecimal?_of_number hs hv
    · cases h
  · split at h
    · cases h; trivial
    · cases h
  · cases h; trivial
  · cases h; trivial
  · cases h

/-! ## Phrases -/

theorem Expr.join?_proper {op : Tree} {left right e : Expr} (h : Expr.join? op left right = some e)
    (hl : left.Proper) (hr : right.Proper) : e.Proper := by
  unfold Expr.join? at h
  split at h
  · cases h; exact ⟨hl, hr⟩
  · cases h; exact ⟨hl, hr⟩
  · obtain ⟨op, -, rfl⟩ := Option.map_eq_some_iff.1 h
    exact ⟨hl, hr⟩

/-- The name after a point is a word. -/
theorem isWord_of_staticAccess {start stop : Nat} {name : Tree} {rest : List Tree}
    (h : Tree.Derived (.phrase .staticAccess start stop (name :: rest))) : Scanner.IsWord name.lexeme.toList := by
  obtain ⟨p, hr, hp⟩ := h.parts
  cases hr
  generalize hts : name :: rest = ts at hp
  cases hp with
  | seq hdot hname =>
    cases hdot
    cases hname with
    | rule hrule ht =>
      cases hts
      cases ht with
      | token hr hs =>
        cases hrule
        cases hr
        show Scanner.IsWord (String.ofList _).toList
        rw [String.toList_ofList]
        exact Scanner.isWord_of_anyWord hs
      | phrase hr _ => cases hrule; cases hr

section

variable {text : List Char}

section

variable {span : Span} {ts : List Tree} {e : Expr}

theorem Expr.ofFirst_eq_ok {part : Constituent} (h : Expr.ofFirst text part span ts = .ok e) :
    ∃ t rest, ts = t :: rest ∧ Expr.ofTree text t = .ok e := by
  cases ts with
  | nil => cases h
  | cons t rest => exact ⟨t, rest, rfl, h⟩

theorem Expr.ofAssigned_eq_ok {target : Expr} (h : Expr.ofAssigned text span target ts = .ok e) :
    ∃ op value rest symbol b, ts = op :: value :: rest ∧ Expr.ofTree text value = .ok b ∧
      e = .assign symbol target b span := by
  unfold Expr.ofAssigned at h
  split at h
  · cases h
  · next op rest =>
    split at h
    · cases h
    · next symbol _ =>
      obtain ⟨b, hb, he⟩ := ok_of_bind h
      obtain ⟨value, rest, rfl, hvalue⟩ := Expr.ofFirst_eq_ok hb
      cases he
      exact ⟨op, value, rest, symbol, b, rfl, hvalue, rfl⟩

theorem Expr.ofChoice_eq_ok {condition : Expr} (h : Expr.ofChoice text span condition ts = .ok e) :
    e = condition ∨ ∃ t u rest b c, ts = t :: u :: rest ∧ Expr.ofTree text t = .ok b ∧ Expr.ofTree text u = .ok c ∧
      e = .ternary condition b c span := by
  unfold Expr.ofChoice at h
  split at h
  · cases h
    exact .inl rfl
  · next t rest =>
    obtain ⟨b, hb, h⟩ := ok_of_bind h
    obtain ⟨c, hc, he⟩ := ok_of_bind h
    obtain ⟨u, rest, rfl, hu⟩ := Expr.ofFirst_eq_ok hc
    cases he
    exact .inr ⟨t, u, rest, b, c, rfl, hb, hu, rfl⟩

theorem Expr.ofArgs_eq_ok {es : List Expr} (h : Expr.ofArgs text ts = .ok es) :
    es = [] ∨ ∃ r start stop args rest, ts = .phrase r start stop args :: rest ∧ Expr.ofTrees text args = .ok es := by
  unfold Expr.ofArgs at h
  split at h
  · exact .inr ⟨_, _, _, _, _, rfl, h⟩
  · cases h
    exact .inl rfl

/-- What follows an expression: a call, or an access by name or by index. -/
theorem Expr.ofAccessors_cons {first : Expr} {t : Tree} (h : Expr.ofAccessors text span first (t :: ts) = .ok e) :
    ∃ r start stop r' start' stop' inside more, t = .phrase r start stop (.phrase r' start' stop' inside :: more) ∧
      ((∃ args, Expr.ofArgs text inside = .ok args ∧
          Expr.ofAccessors text span (.call first args (first.span.merge (.ofOffsets text start stop))) ts = .ok e) ∨
        (∃ name others, r' = .staticAccess ∧ inside = name :: others ∧ Expr.ofAccessors text span
          (.member first (.fixed name.lexeme) (first.span.merge (.ofOffsets text start stop))) ts = .ok e) ∨
        ∃ u others i, inside = u :: others ∧ Expr.ofTree text u = .ok i ∧ Expr.ofAccessors text span
          (.member first (.computed i) (first.span.merge (.ofOffsets text start stop))) ts = .ok e) := by
  unfold Expr.ofAccessors at h
  split at h
  · next heq => cases heq
  · next heq =>
    cases heq
    obtain ⟨args, hargs, h⟩ := ok_of_bind h
    exact ⟨_, _, _, _, _, _, _, _, rfl, .inl ⟨args, hargs, h⟩⟩
  · next heq =>
    cases heq
    exact ⟨_, _, _, _, _, _, _, _, rfl, .inr (.inl ⟨_, _, rfl, rfl, h⟩)⟩
  · next heq =>
    cases heq
    obtain ⟨i, hi, hnext⟩ := ok_of_bind h
    obtain ⟨u, others, rfl, hu⟩ := Expr.ofFirst_eq_ok hi
    exact ⟨_, _, _, _, _, _, _, _, rfl, .inr (.inr ⟨u, others, i, rfl, hu, hnext⟩)⟩
  · cases h

/-- Keywords among the parts of a function are passed over. -/
theorem FunctionDef.ofParts_of_isKeyword {anonymous : Bool} {name : Option String} {params : List String}
    {body : Option Stmt} {t : Tree} (h : t.rule.isKeyword = true) :
    FunctionDef.ofParts text span anonymous name params body (t :: ts) =
      FunctionDef.ofParts text span anonymous name params body ts := by
  rw [FunctionDef.ofParts.eq_def]
  split
  · next heq => cases heq
  · next heq => cases heq; cases h
  · next heq => cases heq; cases h
  · next heq => cases heq; cases h
  · next heq =>
    cases heq
    exact if_pos h

/-- Keywords among the parts of a loop are passed over. -/
theorem Stmt.ofForParts_of_isKeyword {init : Option ForInit} {test update : Option Expr} {body : Option Stmt} {t : Tree}
    (h : t.rule.isKeyword = true) : Stmt.ofForParts text span init test update body (t :: ts) =
      Stmt.ofForParts text span init test update body ts := by
  rw [Stmt.ofForParts.eq_def]
  split
  · next heq => cases heq
  · next heq => cases heq; cases h
  · next heq => cases heq; cases h
  · next heq => cases heq; cases h
  · next heq =>
    cases heq
    exact if_pos h

end

variable (text) in
/-- The expression of a tree, if there is one, is proper. -/
def Tree.GivesProper (t : Tree) : Prop := ∀ e, Expr.ofTree text t = .ok e → e.Proper

variable (text) in
/-- What the induction over a tree knows of the trees inside. -/
abbrev Tree.Known (t : Tree) : Prop := t.Everywhere fun t => t.Derived ∧ t.GivesProper text

theorem Expr.ofTrees_proper {ts : List Tree} (hts : ∀ t ∈ ts, t.GivesProper text) {es : List Expr}
    (h : Expr.ofTrees text ts = .ok es) : Expr.ListProper es := by
  induction ts generalizing es with
  | nil => cases h; trivial
  | cons t ts ih =>
    obtain ⟨e, he, h⟩ := ok_of_bind h
    obtain ⟨es, hes, h⟩ := ok_of_bind h
    cases h
    exact ⟨hts t (by simp) e he, ih (fun u hu => hts u (by simp [hu])) hes⟩

theorem Expr.ofChain_proper {span : Span} {e : Expr} : ∀ {ts : List Tree} {left : Expr}, left.Proper →
    (∀ t ∈ ts, t.GivesProper text) → Expr.ofChain text span left ts = .ok e → e.Proper
  | [], _, hleft, _, h => by cases h; exact hleft
  | [_], _, _, _, h => by cases h
  | op :: t :: rest, left, hleft, hts, h => by
    obtain ⟨right, hright, h⟩ := ok_of_bind h
    have hproper := hts t (by simp) right hright
    split at h
    · cases h
    · next hjoin =>
      exact Expr.ofChain_proper (Expr.join?_proper hjoin hleft hproper) (fun u hu => hts u (by simp [hu])) h

theorem Expr.ofArgs_proper {ts : List Tree} (hts : ∀ t ∈ ts, t.Known text) {es : List Expr}
    (h : Expr.ofArgs text ts = .ok es) : Expr.ListProper es := by
  rcases Expr.ofArgs_eq_ok h with rfl | ⟨_, _, _, args, rest, rfl, hargs⟩
  · trivial
  · exact Expr.ofTrees_proper (fun u hu => ((hts _ List.mem_cons_self).parts u hu).here.2) hargs

theorem Expr.ofAccessors_proper {span : Span} {first e : Expr} (hfirst : first.Proper) {ts : List Tree}
    (hts : ∀ t ∈ ts, t.Known text) (h : Expr.ofAccessors text span first ts = .ok e) : e.Proper := by
  induction ts generalizing first with
  | nil => cases h; exact hfirst
  | cons t rest ih =>
    have hrest : ∀ u ∈ rest, u.Known text := fun u hu => hts u (by simp [hu])
    obtain ⟨_, _, _, _, _, _, inside, more, rfl, hcase⟩ := Expr.ofAccessors_cons h
    have hsuffix := (hts _ List.mem_cons_self).parts _ List.mem_cons_self
    rcases hcase with ⟨args, hargs, h⟩ | ⟨name, others, rfl, rfl, h⟩ | ⟨u, others, i, rfl, hi, h⟩
    · refine ih ?_ hrest h
      exact ⟨hfirst, Expr.ofArgs_proper hsuffix.parts hargs⟩
    · refine ih ?_ hrest h
      exact ⟨hfirst, isWord_of_staticAccess hsuffix.here.1⟩
    · refine ih ?_ hrest h
      exact ⟨hfirst, (hsuffix.parts u List.mem_cons_self).here.2 i hi⟩

theorem Expr.ofPhrase_proper {r : Rule} {span : Span} {parts : List Tree} (hp : ∀ t ∈ parts, t.Known text) {e : Expr}
    (h : Expr.ofPhrase text r span parts = .ok e) : e.Proper := by
  have hgives : ∀ t ∈ parts, t.GivesProper text := fun t ht => (hp t ht).here.2
  unfold Expr.ofPhrase at h
  split at h
  case h_1 | h_2 | h_3 | h_4 | h_5 | h_18 | h_20 => exact hgives _ (by simp) e h
  case h_6 target rest =>
    obtain ⟨a, ha, h⟩ := ok_of_bind h
    dsimp only at h
    split at h
    · cases h
    · next htarget =>
      obtain ⟨op, value, _, _, b, rfl, hb, rfl⟩ := Expr.ofAssigned_eq_ok h
      exact ⟨by simpa using htarget, hgives target (by simp) a ha, hgives value (by simp) b hb⟩
  case h_7 | h_8 =>
    obtain ⟨_, -, h⟩ := ok_of_bind h
    cases h
    trivial
  case h_10 condition rest =>
    obtain ⟨a, ha, h⟩ := ok_of_bind h
    have hcondition := hgives condition (by simp) a ha
    rcases Expr.ofChoice_eq_ok h with rfl | ⟨t, u, _, b, c, rfl, hb, hc, rfl⟩
    · exact hcondition
    · exact ⟨hcondition, hgives t (by simp) b hb, hgives u (by simp) c hc⟩
  case h_11 t rest | h_12 t rest | h_13 t rest | h_14 t rest | h_15 t rest | h_16 t rest =>
    obtain ⟨a, ha, h⟩ := ok_of_bind h
    exact Expr.ofChain_proper (hgives t (by simp) a ha) (fun u hu => hgives u (by simp [hu])) h
  case h_17 | h_19 =>
    obtain ⟨a, ha, he⟩ := ok_of_bind h
    obtain ⟨arg, _, rfl, harg⟩ := Expr.ofFirst_eq_ok ha
    cases he
    exact hgives arg (by simp) a harg
  case h_21 arg _ _ =>
    obtain ⟨a, ha, h⟩ := ok_of_bind h
    cases h
    exact hgives arg (by simp) a ha
  case h_22 t accessors =>
    obtain ⟨a, ha, h⟩ := ok_of_bind h
    exact Expr.ofAccessors_proper (hgives t (by simp) a ha) (fun u hu => hp u (by simp [hu])) h
  case h_23 | h_24 => cases h; trivial
  case h_9 | h_25 => cases h

theorem Tree.Derived.known {t : Tree} (ht : t.Derived) : t.Known text := by
  have hall := ht.everywhere
  clear ht
  induction hall with
  | token h => exact .token ⟨h, fun e he => Expr.ofToken_proper h he⟩
  | @phrase r start stop parts h _ ih =>
    refine .phrase ⟨h, fun e he => ?_⟩ ih
    unfold Expr.ofTree at he
    split at he
    · next heq => cases heq
    · obtain ⟨fn, -, hfn⟩ := ok_of_bind he
      cases hfn
      trivial
    · next heq => cases heq; exact Expr.ofPhrase_proper ih he

/-- Every expression of a derived tree is proper. -/
theorem Expr.ofTree_proper {t : Tree} (ht : t.Derived) {e : Expr} (h : Expr.ofTree text t = .ok e) : e.Proper :=
  ht.known.here.2 e h

/-! ## Scripts of one expression -/

section

variable {span : Span} {init : Option ForInit} {test update : Option Expr} {body : Option Stmt} {t : Tree}
  {ts : List Tree} {s : Stmt}

variable (text span init test update body t ts s) in
/-- What the next part of a loop is, when `s` is read from it and from the parts behind it. -/
inductive ForPart : Prop where
  | keyword (hr : t.rule.isKeyword) (h : Stmt.ofForParts text span init test update body ts = .ok s)
  | init {start stop : Nat} {inside : List Tree} {i : ForInit} (ht : t = .phrase .forInit start stop inside)
      (hi : ForInit.ofParts text (.ofOffsets text start stop) inside = .ok i)
      (h : Stmt.ofForParts text span (some i) test update body ts = .ok s)
  | test {start stop : Nat} {u : Tree} {more : List Tree} {e : Expr} (ht : t = .phrase .forTest start stop (u :: more))
      (he : Expr.ofTree text u = .ok e) (h : Stmt.ofForParts text span init (some e) update body ts = .ok s)
  | update {start stop : Nat} {u : Tree} {more : List Tree} {e : Expr}
      (ht : t = .phrase .forUpdate start stop (u :: more)) (he : Expr.ofTree text u = .ok e)
      (h : Stmt.ofForParts text span init test (some e) body ts = .ok s)
  | body {b : Stmt} (hk : t.rule.isKeyword = false) (hr : t.rule ∉ [.forInit, .forTest, .forUpdate])
      (hb : Stmt.ofTree text t = .ok b) (h : Stmt.ofForParts text span init test update (some b) ts = .ok s)

theorem Stmt.ofForParts_cons (h : Stmt.ofForParts text span init test update body (t :: ts) = .ok s) :
    ForPart text span init test update body t ts s := by
  unfold Stmt.ofForParts at h
  split at h
  case h_1 heq => cases heq
  case h_2 heq =>
    cases heq
    obtain ⟨i, hi, h⟩ := ok_of_bind h
    exact .init rfl hi h
  case h_3 heq =>
    cases heq
    obtain ⟨e, he, hnext⟩ := ok_of_bind h
    obtain ⟨u, more, rfl, hu⟩ := Expr.ofFirst_eq_ok he
    exact .test rfl hu hnext
  case h_4 heq =>
    cases heq
    obtain ⟨e, he, hnext⟩ := ok_of_bind h
    obtain ⟨u, more, rfl, hu⟩ := Expr.ofFirst_eq_ok he
    exact .update rfl hu hnext
  case h_5 hinit htest hupdate heq =>
    cases heq
    split at h
    · next hr => exact .keyword hr h
    · next hk =>
      obtain ⟨b, hb, h⟩ := ok_of_bind h
      refine .body (Bool.eq_false_iff.2 hk) (fun hr => ?_) hb h
      cases t with
      | token => cases hb
      | phrase r start stop parts =>
        simp only [Tree.rule, List.mem_cons, List.not_mem_nil, or_false] at hr
        rcases hr with rfl | rfl | rfl
        · exact hinit _ _ _ rfl
        · exact htest _ _ _ rfl
        · exact hupdate _ _ _ rfl

/-- The parts of a loop give a loop. -/
theorem Stmt.ofForParts_for (h : Stmt.ofForParts text span init test update body ts = .ok s) :
    ∃ init test update body, s = .for init test update body span := by
  induction ts generalizing init test update body with
  | nil =>
    cases body with
    | none => cases h
    | some body => cases h; exact ⟨init, test, update, body, rfl⟩
  | cons t ts ih =>
    cases Stmt.ofForParts_cons h with
    | keyword _ h | init _ _ h | test _ _ h | update _ _ h | body _ _ _ h => exact ih h

end

theorem Stmt.ofElse_eq_ok {span : Span} {t : Tree} {s : Stmt} (h : Stmt.ofElse text span t = .ok s) :
    ∃ r start stop kw u more, t = .phrase r start stop (kw :: u :: more) ∧ Stmt.ofTree text u = .ok s := by
  unfold Stmt.ofElse at h
  split at h
  · exact ⟨_, _, _, _, _, _, rfl, h⟩
  · cases h

/-- The branches of a conditional: one, or one and the clause of an `else`. -/
theorem Stmt.ofBranches_eq_ok {span : Span} {test : Expr} {ts : List Tree} {s : Stmt}
    (h : Stmt.ofBranches text span test ts = .ok s) :
    (∃ t a, ts = [t] ∧ Stmt.ofTree text t = .ok a ∧ s = .ifElse test a none span) ∨
      ∃ t clause rest a b, ts = t :: clause :: rest ∧ Stmt.ofTree text t = .ok a ∧ Stmt.ofElse text span clause = .ok b ∧
        s = .ifElse test a (some b) span := by
  unfold Stmt.ofBranches at h
  split at h
  · cases h
  · obtain ⟨a, ha, h⟩ := ok_of_bind h
    cases h
    exact .inl ⟨_, a, rfl, ha, rfl⟩
  · obtain ⟨a, ha, h⟩ := ok_of_bind h
    obtain ⟨b, hb, h⟩ := ok_of_bind h
    cases h
    exact .inr ⟨_, _, _, a, b, rfl, ha, hb, rfl⟩

/-- The trees of expression statements: one of that rule, or a statement that is one. -/
theorem Stmt.ofTree_eq_expr {t : Tree} {e : Expr} {s : Span} (h : Stmt.ofTree text t = .ok (.expr e s)) :
    ∃ start stop u rest, t = .phrase .statement start stop (u :: rest) ∧ Stmt.ofTree text u = .ok (.expr e s) ∨
      t = .phrase .exprStmt start stop (u :: rest) ∧ Expr.ofTree text u = .ok e := by
  unfold Stmt.ofTree at h
  split at h
  case h_1 => cases h
  case h_2 | h_4 =>
    obtain ⟨_, -, h⟩ := ok_of_bind h
    cases h
  case h_3 =>
    obtain ⟨_, _, _, _, h⟩ := Stmt.ofForParts_for h
    cases h
  case h_5 =>
    unfold Stmt.ofPhrase at h
    split at h
    case h_1 => exact ⟨_, _, _, _, .inl ⟨rfl, h⟩⟩
    case h_2 | h_7 =>
      obtain ⟨_, -, h⟩ := ok_of_bind h
      cases h
    case h_3 =>
      obtain ⟨_, -, h⟩ := ok_of_bind h
      rcases Stmt.ofBranches_eq_ok h with ⟨_, _, _, _, h⟩ | ⟨_, _, _, _, _, _, _, _, h⟩ <;> cases h
    case h_10 =>
      obtain ⟨_, ha, h⟩ := ok_of_bind h
      cases h
      exact ⟨_, _, _, _, .inr ⟨rfl, ha⟩⟩
    all_goals cases h

/-- An expression statement holds the expression of a derived tree. -/
theorem Stmt.ofTree_expr {t : Tree} (ht : t.Everywhere Tree.Derived) {e : Expr} {s : Span}
    (h : Stmt.ofTree text t = .ok (.expr e s)) : ∃ u : Tree, u.Derived ∧ Expr.ofTree text u = .ok e := by
  induction ht with
  | token => cases h
  | @phrase r start stop parts ht hparts ih =>
    obtain ⟨_, _, u, _, ⟨heq, hu⟩ | ⟨heq, hu⟩⟩ := Stmt.ofTree_eq_expr h
    · cases heq
      exact ih u List.mem_cons_self hu
    · cases heq
      exact ⟨u, (hparts u List.mem_cons_self).here, hu⟩

/-- A script that is one expression has one statement, which is that expression. -/
theorem Program.ofTree_single {t : Tree} {p : Program} {e : Expr} (hp : Program.ofTree text t = .ok p)
    (he : p.expression = .ok e) :
    ∃ u s, t.parts.filter (·.rule = .statement) = [u] ∧ Stmt.ofTree text u = .ok (.expr e s) := by
  obtain ⟨statements, hs, hp⟩ := ok_of_bind hp
  cases hp
  unfold Program.expression at he
  split at he
  · next e' s covered hbody =>
    cases he
    cases hbody
    cases hparts : t.parts.filter (·.rule = .statement) with
    | nil => rw [hparts] at hs; cases hs
    | cons u rest =>
      rw [hparts] at hs
      obtain ⟨first, hfirst, hs⟩ := ok_of_bind hs
      obtain ⟨more, hmore, hs⟩ := ok_of_bind hs
      cases hs
      cases rest with
      | nil => exact ⟨u, s, rfl, hfirst⟩
      | cons v rest =>
        obtain ⟨_, -, hmore⟩ := ok_of_bind hmore
        obtain ⟨_, -, hmore⟩ := ok_of_bind hmore
        cases hmore
  · cases he
  · cases he

/-- A script that is one expression comes from a derived tree of that expression. -/
theorem Program.ofTree_expression {t : Tree} (ht : t.Everywhere Tree.Derived) {p : Program} {e : Expr}
    (hp : Program.ofTree text t = .ok p) (he : p.expression = .ok e) :
    ∃ u : Tree, u.Derived ∧ Expr.ofTree text u = .ok e := by
  obtain ⟨u, s, hparts, hu⟩ := Program.ofTree_single hp he
  have hmem : u ∈ t.parts := (List.mem_filter.1 (hparts ▸ List.mem_cons_self)).1
  exact Stmt.ofTree_expr (ht.inside u hmem) hu

end

theorem Program.ofChars_of_tree {text : List Char} {t : Tree} (h : Tree.ofText text = .ok [t]) :
    Program.ofChars text = (Program.ofTree text t).mapError .build := by
  unfold Program.ofChars
  rw [h]
  rfl

/-- A script is read in two steps; its match is one tree. -/
theorem Program.ofChars_eq_ok {text : List Char} {p : Program} :
    Program.ofChars text = .ok p ↔ ∃ t, Tree.ofText text = .ok [t] ∧ Program.ofTree text t = .ok p := by
  constructor
  · intro h
    unfold Program.ofChars at h
    split at h
    · cases h
    · next ts hts =>
      obtain ⟨t, rfl, -⟩ := Tree.ofText_derived hts
      rw [Program.ofTrees] at h
      cases hp : Program.ofTree text t with
      | error e => rw [hp] at h; cases h
      | ok q => rw [hp] at h; cases h; exact ⟨t, hts, hp⟩
  · rintro ⟨t, ht, hp⟩
    rw [Program.ofChars_of_tree ht, hp]
    rfl

/-- Every expression that is read is proper. -/
theorem Expr.parse_proper {source : String} {e : Expr} (h : Expr.parse source = .ok e) : e.Proper := by
  obtain ⟨p, hp, he⟩ := ok_of_bind h
  obtain ⟨t, htext, hprogram⟩ := Program.ofChars_eq_ok.1 hp
  obtain ⟨_, heq, -, ht⟩ := Tree.ofText_derived htext
  cases heq
  obtain ⟨v, hv, hev⟩ := Program.ofTree_expression ht.everywhere hprogram he
  exact Expr.ofTree_proper hv hev

end Stepwise

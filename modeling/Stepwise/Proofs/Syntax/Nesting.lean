import Stepwise.Proofs.Grammar.Parts
import Stepwise.Proofs.Syntax.Outline
import Stepwise.Proofs.Syntax.Proper

/-!
# Spans are nested

The outline of every script that is read is nested in its text (`Program.spans_nested`). Expressions and statements lie
in the range of their tree (`Tree.Fitting`); this is shown by induction over the tree, with one lemma for each builder
that takes several trees (`Row`). Spans come from three sources: the range of a rule, the merge of the spans of two
operands, and, in the body of an arrow function that only gives an expression, the span of that expression.
-/

namespace Stepwise

section

variable {text : List Char} {lo hi : Nat}

/-! ## Trees in a row -/

variable (text) in
/-- What the induction over a tree knows of the trees inside. -/
structure Tree.Fitting (t : Tree) : Prop where
  placed : t.Placed text
  expr : ∀ e, Expr.ofTree text t = .ok e → e.outline.Fits text t.start t.stop
  stmt : ∀ s, Stmt.ofTree text t = .ok s → s.outline.Fits text t.start t.stop

/-- Trees between two offsets, one after the other, with nested expressions and statements everywhere. -/
structure Row (text : List Char) (lo hi : Nat) (ts : List Tree) : Prop where
  spread : Spread lo (ts.map Tree.range) hi
  fitting : ∀ t ∈ ts, t.Everywhere (Tree.Fitting text)

theorem Tree.Placed.located {t : Tree} (h : t.Placed text) : (t.span text).Located text :=
  Span.located_ofOffsets h.start h.stop h.parts.le

theorem Tree.Everywhere.row {r : Rule} {start stop : Nat} {parts : List Tree}
    (h : (Tree.phrase r start stop parts).Everywhere (Tree.Fitting text)) : Row text start stop parts :=
  ⟨h.here.placed.parts, h.parts⟩

namespace Row

variable {t : Tree} {ts us : List Tree}

theorem le (h : Row text lo hi ts) : lo ≤ hi := h.spread.le

theorem mono {lo' hi' : Nat} (h : Row text lo hi ts) (hlo : lo' ≤ lo) (hhi : hi ≤ hi') : Row text lo' hi' ts :=
  ⟨h.spread.mono hlo hhi, h.fitting⟩

theorem sublist (h : Row text lo hi ts) (hs : us.Sublist ts) : Row text lo hi us :=
  ⟨h.spread.sublist (hs.map _), fun t ht => h.fitting t (hs.subset ht)⟩

/-- The trees behind the first one. -/
theorem skip (h : Row text lo hi (t :: ts)) : Row text lo hi ts := h.sublist (List.sublist_cons_self t ts)

/-- The trees behind the first one start where it stops. -/
theorem rest (h : Row text lo hi (t :: ts)) : Row text t.stop hi ts := by
  cases h.spread with
  | cons _ _ hrest => exact ⟨hrest, fun u hu => h.fitting u (List.mem_cons_of_mem t hu)⟩

theorem inside (h : Row text lo hi ts) (ht : t ∈ ts) : lo ≤ t.start ∧ t.stop ≤ hi := by
  have hr := h.spread.inside t.range (List.mem_map_of_mem ht)
  exact ⟨hr.1, hr.2.2⟩

theorem split (h : Row text lo hi (ts ++ us)) : ∃ mid, Row text lo mid ts ∧ Row text mid hi us := by
  obtain ⟨hspread, hfitting⟩ := h
  rw [List.map_append] at hspread
  obtain ⟨mid, hts, hus⟩ := hspread.split
  exact ⟨mid, ⟨hts, fun t ht => hfitting t (List.mem_append_left _ ht)⟩,
    ⟨hus, fun t ht => hfitting t (List.mem_append_right _ ht)⟩⟩

/-- The parts of a tree in the row. -/
theorem inner {r : Rule} {start stop : Nat} {parts : List Tree} (h : Row text lo hi ts)
    (ht : Tree.phrase r start stop parts ∈ ts) : Row text lo hi parts :=
  (h.fitting _ ht).row.mono (h.inside ht).1 (h.inside ht).2

theorem expr {e : Expr} (h : Row text lo hi ts) (ht : t ∈ ts) (he : Expr.ofTree text t = .ok e) :
    e.outline.Fits text lo hi :=
  ((h.fitting t ht).here.expr e he).mono (h.inside ht).1 (h.inside ht).2

theorem stmt {s : Stmt} (h : Row text lo hi ts) (ht : t ∈ ts) (hs : Stmt.ofTree text t = .ok s) :
    s.outline.Fits text lo hi :=
  ((h.fitting t ht).here.stmt s hs).mono (h.inside ht).1 (h.inside ht).2

theorem cons_expr {e : Expr} {os : List Outline} (h : Row text lo hi (t :: ts)) (he : Expr.ofTree text t = .ok e)
    (hos : Fit text t.stop hi os) : Fit text lo hi (e.outline :: os) :=
  .cons ((h.fitting t List.mem_cons_self).here.expr e he) (h.inside List.mem_cons_self).1 hos

theorem cons_stmt {s : Stmt} {os : List Outline} (h : Row text lo hi (t :: ts)) (hs : Stmt.ofTree text t = .ok s)
    (hos : Fit text t.stop hi os) : Fit text lo hi (s.outline :: os) :=
  .cons ((h.fitting t List.mem_cons_self).here.stmt s hs) (h.inside List.mem_cons_self).1 hos

end Row

theorem Expr.ofTrees_fit {ts : List Tree} (hts : Row text lo hi ts) {es : List Expr}
    (h : Expr.ofTrees text ts = .ok es) : Fit text lo hi (Expr.outlines es) := by
  induction ts generalizing lo es with
  | nil => cases h; exact .nil hts.le
  | cons t ts ih =>
    obtain ⟨e, he, h⟩ := ok_of_bind h
    obtain ⟨es, hes, h⟩ := ok_of_bind h
    cases h
    exact hts.cons_expr he (ih hts.rest hes)

theorem Stmt.ofTrees_fit {ts : List Tree} (hts : Row text lo hi ts) {ss : List Stmt}
    (h : Stmt.ofTrees text ts = .ok ss) : Fit text lo hi (Stmt.outlines ss) := by
  induction ts generalizing lo ss with
  | nil => cases h; exact .nil hts.le
  | cons t ts ih =>
    obtain ⟨s, hs, h⟩ := ok_of_bind h
    obtain ⟨ss, hss, h⟩ := ok_of_bind h
    cases h
    exact hts.cons_stmt hs (ih hts.rest hss)

theorem Tree.Everywhere.block {r : Rule} {start stop : Nat} {parts : List Tree}
    (ht : (Tree.phrase r start stop parts).Everywhere (Tree.Fitting text)) {ss : List Stmt}
    (h : Stmt.ofTrees text parts = .ok ss) :
    (Stmt.block ss (.ofOffsets text start stop)).outline.Fits text start stop :=
  Fit.node ht.here.placed.located (Stmt.ofTrees_fit ht.row h)

/-- The block of a tree in a row. -/
theorem Row.block {ts parts : List Tree} {r : Rule} {start stop : Nat} (h : Row text lo hi ts)
    (ht : Tree.phrase r start stop parts ∈ ts) {ss : List Stmt} (hss : Stmt.ofTrees text parts = .ok ss) :
    (Stmt.block ss (.ofOffsets text start stop)).outline.Fits text lo hi :=
  ((h.fitting _ ht).block hss).mono (h.inside ht).1 (h.inside ht).2

/-! ## Chains, accessors and functions -/

theorem Expr.join?_fits {op : Tree} {left right e : Expr} {mid : Nat} (h : Expr.join? op left right = some e)
    (hl : left.outline.Fits text lo mid) (hr : right.outline.Fits text mid hi) : e.outline.Fits text lo hi := by
  obtain ⟨hlocated, hstart, hstop, hself⟩ := hr.own_span right.outline_span
  have hnode := (Fit.merge hl hlocated hstart (.single hself)).mono (Nat.le_refl _) hstop
  rw [left.outline_span] at hnode
  unfold Expr.join? at h
  split at h
  · cases h; exact hnode
  · cases h; exact hnode
  · obtain ⟨op, -, rfl⟩ := Option.map_eq_some_iff.1 h
    exact hnode

theorem Expr.ofChain_fits {span : Span} {e : Expr} : ∀ {ts : List Tree} {left : Expr} {mid : Nat},
    left.outline.Fits text lo mid → Row text mid hi ts → Expr.ofChain text span left ts = .ok e →
    e.outline.Fits text lo hi
  | [], _, _, hleft, hts, h => by cases h; exact hleft.mono (Nat.le_refl _) hts.le
  | [_], _, _, _, _, h => by cases h
  | op :: t :: rest, left, mid, hleft, hts, h => by
    obtain ⟨right, hright, h⟩ := ok_of_bind h
    have hbounds := hts.skip.inside List.mem_cons_self
    have hfits := (hts.skip.fitting t List.mem_cons_self).here.expr right hright
    split at h
    · cases h
    · next hjoin =>
      have hjoined := Expr.join?_fits hjoin hleft (hfits.mono hbounds.1 (Nat.le_refl _))
      exact Expr.ofChain_fits hjoined hts.skip.rest h

/-- An expression extended by an accessor, whose operands lie in the accessor. -/
theorem Expr.extend_fits {e : Expr} {mid start stop : Nat} {inner ts : List Tree} {r : Rule} {os : List Outline}
    (he : e.outline.Fits text lo mid) (hts : Row text mid hi (.phrase r start stop inner :: ts))
    (hos : Fit text start stop os) :
    (Outline.node (e.span.merge (.ofOffsets text start stop)) (e.outline :: os)).Fits text lo stop := by
  rw [← e.outline_span]
  exact Fit.merge he (hts.fitting _ List.mem_cons_self).here.placed.located (hts.inside List.mem_cons_self).1 hos

theorem Expr.ofArgs_fit {ts : List Tree} (hts : Row text lo hi ts) {es : List Expr}
    (h : Expr.ofArgs text ts = .ok es) : Fit text lo hi (Expr.outlines es) := by
  rcases Expr.ofArgs_eq_ok h with rfl | ⟨_, _, _, args, rest, rfl, hargs⟩
  · exact .nil hts.le
  · exact Expr.ofTrees_fit (hts.inner List.mem_cons_self) hargs

theorem Expr.ofAccessors_fits {span : Span} {first e : Expr} {mid : Nat} (hfirst : first.outline.Fits text lo mid)
    {ts : List Tree} (hts : Row text mid hi ts) (h : Expr.ofAccessors text span first ts = .ok e) :
    e.outline.Fits text lo hi := by
  induction ts generalizing first mid with
  | nil => cases h; exact hfirst.mono (Nat.le_refl _) hts.le
  | cons t rest ih =>
    obtain ⟨_, _, _, _, _, _, inside, more, rfl, hcase⟩ := Expr.ofAccessors_cons h
    have haccess := (hts.fitting _ List.mem_cons_self).row
    have hinside := haccess.inner List.mem_cons_self
    rcases hcase with ⟨args, hargs, h⟩ | ⟨name, others, -, -, h⟩ | ⟨u, others, i, rfl, hi, h⟩
    · exact ih (Expr.extend_fits hfirst hts (Expr.ofArgs_fit hinside hargs)) hts.rest h
    · exact ih (Expr.extend_fits hfirst hts (.nil haccess.le)) hts.rest h
    · exact ih (Expr.extend_fits hfirst hts (.single (hinside.expr List.mem_cons_self hi))) hts.rest h

theorem Stmt.returning_fits {e : Expr} (h : e.outline.Fits text lo hi) :
    (Stmt.returning e).outline.Fits text lo hi := by
  obtain ⟨hlocated, hstart, hstop, hself⟩ := h.own_span e.outline_span
  have hret := Fit.node hlocated (.single hself)
  exact (Fit.node hlocated (.single hret)).mono hstart hstop

theorem FunctionDef.ofParts_fits {span : Span} (hs : span.Located text) {anonymous : Bool} {name : Option String}
    {params : List String} {body : Option Stmt} (hbody : ∀ b, body = some b → b.outline.Fits text span.start span.stop)
    {parts : List Tree} (hp : Row text span.start span.stop parts) {fn : FunctionDef}
    (h : FunctionDef.ofParts text span anonymous name params body parts = .ok fn) :
    fn.outline.Fits text span.start span.stop := by
  induction parts generalizing name params body with
  | nil =>
    unfold FunctionDef.ofParts at h
    split at h
    · cases h
    · split at h
      · cases h
      · next b =>
        cases h
        exact Fit.node hs (.single (hbody b rfl))
  | cons t rest ih =>
    unfold FunctionDef.ofParts at h
    split at h
    case h_1 heq => cases heq
    case h_2 heq | h_3 heq => cases heq; exact ih hbody hp.skip h
    case h_4 heq =>
      cases heq
      obtain ⟨ss, hss, h⟩ := ok_of_bind h
      refine ih (fun b hb => ?_) hp.skip h
      cases hb
      exact hp.block List.mem_cons_self hss
    case h_5 heq =>
      cases heq
      split at h
      · exact ih hbody hp.skip h
      · cases h

/-! ## Expressions -/

theorem Expr.ofToken_fits {r : Rule} {l : List Char} {span : Span} (hs : span.Located text) {e : Expr}
    (h : Expr.ofToken r l span = .ok e) : e.outline.Fits text span.start span.stop := by
  have hleaf : (Outline.node span []).Fits text span.start span.stop := Fit.node hs (.nil hs.le)
  unfold Expr.ofToken at h
  split at h
  case h_1 | h_4 | h_5 => cases h; exact hleaf
  case h_2 | h_3 =>
    split at h
    · cases h; exact hleaf
    · cases h
  case h_6 => cases h

theorem Expr.ofPhrase_fits {r : Rule} {span : Span} (hs : span.Located text) {parts : List Tree}
    (hp : Row text span.start span.stop parts) {e : Expr} (h : Expr.ofPhrase text r span parts = .ok e) :
    e.outline.Fits text span.start span.stop := by
  unfold Expr.ofPhrase at h
  split at h
  case h_1 | h_2 | h_3 | h_4 | h_5 | h_18 | h_20 => exact hp.expr List.mem_cons_self h
  case h_6 =>
    obtain ⟨a, ha, h⟩ := ok_of_bind h
    dsimp only at h
    split at h
    · cases h
    · obtain ⟨op, value, _, _, b, rfl, hb, rfl⟩ := Expr.ofAssigned_eq_ok h
      exact Fit.node hs (hp.cons_expr ha (.single (hp.rest.skip.expr List.mem_cons_self hb)))
  case h_7 =>
    obtain ⟨ss, hss, h⟩ := ok_of_bind h
    cases h
    have hbody := hp.skip.inner List.mem_cons_self
    exact Fit.node hs (.single (hbody.block List.mem_cons_self hss))
  case h_8 =>
    obtain ⟨a, ha, h⟩ := ok_of_bind h
    cases h
    have hbody := hp.skip.inner List.mem_cons_self
    exact Fit.node hs (.single (Stmt.returning_fits (hbody.expr List.mem_cons_self ha)))
  case h_10 =>
    obtain ⟨a, ha, h⟩ := ok_of_bind h
    rcases Expr.ofChoice_eq_ok h with rfl | ⟨t, u, _, b, c, rfl, hb, hc, rfl⟩
    · exact hp.expr List.mem_cons_self ha
    · have hlast := hp.rest.rest.expr List.mem_cons_self hc
      exact Fit.node hs (hp.cons_expr ha (hp.rest.cons_expr hb (.single hlast)))
  case h_11 | h_12 | h_13 | h_14 | h_15 | h_16 =>
    obtain ⟨a, ha, h⟩ := ok_of_bind h
    have hfirst := (hp.fitting _ List.mem_cons_self).here.expr a ha
    exact Expr.ofChain_fits (hfirst.mono (hp.inside List.mem_cons_self).1 (Nat.le_refl _)) hp.rest h
  case h_17 | h_19 =>
    obtain ⟨a, ha, he⟩ := ok_of_bind h
    obtain ⟨arg, _, rfl, harg⟩ := Expr.ofFirst_eq_ok ha
    cases he
    exact Fit.node hs (.single (hp.skip.expr List.mem_cons_self harg))
  case h_21 =>
    obtain ⟨a, ha, h⟩ := ok_of_bind h
    cases h
    exact Fit.node hs (.single (hp.expr List.mem_cons_self ha))
  case h_22 =>
    obtain ⟨a, ha, h⟩ := ok_of_bind h
    have hfirst := (hp.fitting _ List.mem_cons_self).here.expr a ha
    exact Expr.ofAccessors_fits (hfirst.mono (hp.inside List.mem_cons_self).1 (Nat.le_refl _)) hp.rest h
  case h_23 | h_24 => cases h; exact Fit.node hs (.nil hs.le)
  case h_9 | h_25 => cases h

theorem Expr.ofTree_fits {t : Tree} (hplaced : t.Placed text) (hp : Row text t.start t.stop t.parts) {e : Expr}
    (h : Expr.ofTree text t = .ok e) : e.outline.Fits text t.start t.stop := by
  have hs := hplaced.located
  unfold Expr.ofTree at h
  split at h
  · exact Expr.ofToken_fits hs h
  · obtain ⟨fn, hfn, h⟩ := ok_of_bind h
    cases h
    exact FunctionDef.ofParts_fits hs (by simp) hp hfn
  · exact Expr.ofPhrase_fits hs hp h

/-! ## Statements -/

theorem Declarator.ofTrees_fit {kind : VarKind} {ts : List Tree} (hts : Row text lo hi ts) {ds : List Declarator}
    (h : Declarator.ofTrees text kind ts = .ok ds) : Fit text lo hi (Declarator.outlines ds) := by
  induction ts generalizing lo ds with
  | nil => cases h; exact .nil hts.le
  | cons t ts ih =>
    have ht := hts.fitting t List.mem_cons_self
    have hbefore := (hts.inside List.mem_cons_self).1
    unfold Declarator.ofTrees at h
    split at h
    · next heq => cases heq
    · next heq =>
      cases heq
      dsimp only at h
      split at h
      · cases h
      · obtain ⟨ds, hds, h⟩ := ok_of_bind h
        cases h
        exact .cons (Fit.node ht.here.placed.located (.nil ht.row.le)) hbefore (ih hts.rest hds)
    · next heq =>
      cases heq
      obtain ⟨e, he, h⟩ := ok_of_bind h
      obtain ⟨ds, hds, h⟩ := ok_of_bind h
      cases h
      have hinit := Fit.single (ht.row.skip.expr List.mem_cons_self he)
      exact .cons (Fit.node ht.here.placed.located hinit) hbefore (ih hts.rest hds)
    · cases h

theorem Declarator.ofParts_fit {span : Span} {ts : List Tree} (hts : Row text lo hi ts)
    {entries : VarKind × List Declarator} (h : Declarator.ofParts text span ts = .ok entries) : Fit text lo hi (Declarator.outlines entries.2) := by
  unfold Declarator.ofParts at h
  split at h
  · cases h
  · split at h
    · cases h
    · obtain ⟨ds, hds, h⟩ := ok_of_bind h
      cases h
      exact Declarator.ofTrees_fit hts.skip hds

theorem Stmt.ofBranches_fit {span : Span} {test : Expr} {ts : List Tree} {mid : Nat} (hs : span.Located text)
    (htest : test.outline.Fits text span.start mid) (hts : Row text mid span.stop ts) {s : Stmt}
    (h : Stmt.ofBranches text span test ts = .ok s) : s.outline.Fits text span.start span.stop := by
  rcases Stmt.ofBranches_eq_ok h with ⟨t, a, rfl, ha, rfl⟩ | ⟨t, clause, _, a, b, rfl, ha, hb, rfl⟩
  · exact Fit.node hs ((Fit.single htest).append (.single (hts.stmt List.mem_cons_self ha)))
  · obtain ⟨_, _, _, kw, u, _, rfl, hu⟩ := Stmt.ofElse_eq_ok hb
    have helse := (hts.rest.inner List.mem_cons_self).skip.stmt List.mem_cons_self hu
    exact Fit.node hs ((Fit.single htest).append (hts.cons_stmt ha (.single helse)))

theorem Stmt.ofPhrase_fits {r : Rule} {span : Span} (hs : span.Located text) {parts : List Tree}
    (hp : Row text span.start span.stop parts) {s : Stmt} (h : Stmt.ofPhrase text r span parts = .ok s) :
    s.outline.Fits text span.start span.stop := by
  unfold Stmt.ofPhrase at h
  split at h
  case h_1 => exact hp.stmt List.mem_cons_self h
  case h_2 =>
    obtain ⟨entries, hentries, h⟩ := ok_of_bind h
    cases h
    exact Fit.node hs (Declarator.ofParts_fit (hp.inner List.mem_cons_self) hentries)
  case h_3 =>
    obtain ⟨a, ha, h⟩ := ok_of_bind h
    have htest := (hp.skip.fitting _ List.mem_cons_self).here.expr a ha
    exact Stmt.ofBranches_fit hs (htest.mono (hp.skip.inside List.mem_cons_self).1 (Nat.le_refl _)) hp.skip.rest h
  case h_4 | h_5 | h_6 | h_8 | h_9 => cases h; exact Fit.node hs (.nil hs.le)
  case h_7 =>
    obtain ⟨a, ha, h⟩ := ok_of_bind h
    cases h
    exact Fit.node hs (.single (hp.skip.expr List.mem_cons_self ha))
  case h_10 =>
    obtain ⟨a, ha, h⟩ := ok_of_bind h
    cases h
    exact Fit.node hs (.single (hp.expr List.mem_cons_self ha))
  case h_11 => cases h

/-! ## Loops -/

theorem ForInit.ofParts_fits {span : Span} (hs : span.Located text) {ts : List Tree}
    (hts : Row text span.start span.stop ts) {i : ForInit} (h : ForInit.ofParts text span ts = .ok i) :
    i.outline.Fits text span.start span.stop := by
  unfold ForInit.ofParts at h
  split at h
  · cases h
  · obtain ⟨entries, hentries, h⟩ := ok_of_bind h
    cases h
    exact Fit.node hs (Declarator.ofParts_fit (hts.inner List.mem_cons_self) hentries)
  · obtain ⟨e, he, h⟩ := ok_of_bind h
    cases h
    exact hts.expr List.mem_cons_self he

section

variable {span : Span} {init : Option ForInit} {test update : Option Expr} {body : Option Stmt} {t : Tree}
  {ts : List Tree} {s : Stmt}

theorem Stmt.ofForParts_keyword (hr : t.rule = .kwFor)
    (h : Stmt.ofForParts text span init test update body (t :: ts) = .ok s) :
    Stmt.ofForParts text span init test update body ts = .ok s := by
  cases Stmt.ofForParts_cons h with
  | keyword _ h => exact h
  | init ht | test ht | update ht => rw [ht] at hr; cases hr
  | body hk => rw [hr] at hk; cases hk

theorem Stmt.ofForParts_init (hr : t.rule = .forInit) (ht : t.Everywhere (Tree.Fitting text))
    (h : Stmt.ofForParts text span init test update body (t :: ts) = .ok s) :
    ∃ i, Fit text t.start t.stop (ForInit.optionOutlines (some i)) ∧
      Stmt.ofForParts text span (some i) test update body ts = .ok s := by
  cases Stmt.ofForParts_cons h with
  | keyword hk => rw [hr] at hk; cases hk
  | @init _ _ _ i heq hi hnext =>
    subst heq
    exact ⟨i, .single (ForInit.ofParts_fits ht.here.placed.located ht.row hi), hnext⟩
  | test heq | update heq => rw [heq] at hr; cases hr
  | body _ hne => exact absurd (by simp [hr]) hne

theorem Stmt.ofForParts_test (hr : t.rule = .forTest) (ht : t.Everywhere (Tree.Fitting text))
    (h : Stmt.ofForParts text span init test update body (t :: ts) = .ok s) :
    ∃ e, Fit text t.start t.stop (Expr.optionOutlines (some e)) ∧
      Stmt.ofForParts text span init (some e) update body ts = .ok s := by
  cases Stmt.ofForParts_cons h with
  | keyword hk => rw [hr] at hk; cases hk
  | @test _ _ _ _ e heq he hnext =>
    subst heq
    exact ⟨e, .single (ht.row.expr List.mem_cons_self he), hnext⟩
  | init heq | update heq => rw [heq] at hr; cases hr
  | body _ hne => exact absurd (by simp [hr]) hne

theorem Stmt.ofForParts_update (hr : t.rule = .forUpdate) (ht : t.Everywhere (Tree.Fitting text))
    (h : Stmt.ofForParts text span init test update body (t :: ts) = .ok s) :
    ∃ e, Fit text t.start t.stop (Expr.optionOutlines (some e)) ∧
      Stmt.ofForParts text span init test (some e) body ts = .ok s := by
  cases Stmt.ofForParts_cons h with
  | keyword hk => rw [hr] at hk; cases hk
  | @update _ _ _ _ e heq he hnext =>
    subst heq
    exact ⟨e, .single (ht.row.expr List.mem_cons_self he), hnext⟩
  | init heq | test heq => rw [heq] at hr; cases hr
  | body _ hne => exact absurd (by simp [hr]) hne

theorem Stmt.ofForParts_body (hr : t.rule = .statement) (ht : t.Everywhere (Tree.Fitting text))
    (h : Stmt.ofForParts text span init test update body [t] = .ok s) :
    ∃ b : Stmt, b.outline.Fits text t.start t.stop ∧ s = .for init test update b span := by
  cases Stmt.ofForParts_cons h with
  | keyword hk => rw [hr] at hk; cases hk
  | init heq | test heq | update heq => rw [heq] at hr; cases hr
  | @body b _ _ hb h =>
    cases h
    exact ⟨b, ht.here.stmt b hb, rfl⟩

end

/-- A part that may be missing: if it is there, what is read of it fits into its place. -/
theorem optional_part_fit {α : Type} (outlines : Option α → List Outline) (hnone : outlines none = [])
    (read : Option α → List Tree → Except BuildError Stmt) {r : Rule} {ts rest : List Tree} {s : Stmt}
    (hts : (Pattern.opt (.rule r)).Derives ts) (hrow : Row text lo hi ts)
    (hread : ∀ t, t.rule = r → t.Everywhere (Tree.Fitting text) → read none (t :: rest) = .ok s →
      ∃ a, Fit text t.start t.stop (outlines (some a)) ∧ read (some a) rest = .ok s)
    (h : read none (ts ++ rest) = .ok s) : ∃ a, Fit text lo hi (outlines a) ∧ read a rest = .ok s := by
  cases hts with
  | absent _ =>
    refine ⟨none, ?_, h⟩
    rw [hnone]
    exact .nil hrow.le
  | present hp =>
    cases hp with
    | @rule _ t hr _ =>
      obtain ⟨a, ha, h⟩ := hread t hr (hrow.fitting t List.mem_cons_self) h
      have hinside := hrow.inside List.mem_cons_self
      exact ⟨some a, ha.mono hinside.1 hinside.2, h⟩

theorem Stmt.ofForParts_fits {start stop : Nat} {parts : List Tree} {span : Span} (hs : span.Located text)
    (ht : Tree.Derived (.phrase .forStmt start stop parts)) (hp : Row text span.start span.stop parts) {s : Stmt}
    (h : Stmt.ofForParts text span none none none none parts = .ok s) : s.outline.Fits text span.start span.stop := by
  obtain ⟨kw, inits, tests, updates, body, rfl, hkw, hinits, htests, hupdates, hbody⟩ := forStmt_parts ht
  obtain ⟨_, hirow, hrow⟩ := hp.skip.split
  obtain ⟨_, htrow, hrow⟩ := hrow.split
  obtain ⟨_, hurow, hbrow⟩ := hrow.split
  have h := Stmt.ofForParts_keyword hkw h
  obtain ⟨init, hinit, h⟩ := optional_part_fit ForInit.optionOutlines rfl
    (fun i => Stmt.ofForParts text span i none none none) hinits hirow
    (fun t hr ht h => Stmt.ofForParts_init hr ht h) h
  obtain ⟨test, htest, h⟩ := optional_part_fit Expr.optionOutlines rfl
    (fun e => Stmt.ofForParts text span init e none none) htests htrow
    (fun t hr ht h => Stmt.ofForParts_test hr ht h) h
  obtain ⟨update, hupdate, h⟩ := optional_part_fit Expr.optionOutlines rfl
    (fun e => Stmt.ofForParts text span init test e none) hupdates hurow
    (fun t hr ht h => Stmt.ofForParts_update hr ht h) h
  obtain ⟨b, hb, rfl⟩ := Stmt.ofForParts_body hbody (hbrow.fitting body List.mem_cons_self) h
  have hinside := hbrow.inside List.mem_cons_self
  have hlast := Fit.single (hb.mono hinside.1 hinside.2)
  exact Fit.node hs (hinit.append (htest.append (hupdate.append hlast)))

/-! ## Scripts -/

theorem Stmt.ofTree_fits {t : Tree} (ht : t.Derived) (hplaced : t.Placed text)
    (hp : Row text t.start t.stop t.parts) {s : Stmt} (h : Stmt.ofTree text t = .ok s) :
    s.outline.Fits text t.start t.stop := by
  have hs := hplaced.located
  unfold Stmt.ofTree at h
  split at h
  · cases h
  · obtain ⟨fn, hfn, h⟩ := ok_of_bind h
    cases h
    exact FunctionDef.ofParts_fits hs (by simp) hp hfn
  · exact Stmt.ofForParts_fits hs ht hp h
  · obtain ⟨ss, hss, h⟩ := ok_of_bind h
    cases h
    exact Fit.node hs (Stmt.ofTrees_fit hp hss)
  · exact Stmt.ofPhrase_fits hs hp h

theorem Tree.Fitting.of_parts {t : Tree} (ht : t.Derived) (hplaced : t.Placed text)
    (hparts : ∀ u ∈ t.parts, u.Everywhere (Tree.Fitting text)) : t.Fitting text := by
  have hrow : Row text t.start t.stop t.parts := ⟨hplaced.parts, hparts⟩
  exact ⟨hplaced, fun _ h => Expr.ofTree_fits hplaced hrow h, fun _ h => Stmt.ofTree_fits ht hplaced hrow h⟩

/-- Every expression and every statement of a tree is nested and lies in the range of the tree. -/
theorem Tree.Derived.fitting {t : Tree} (ht : t.Derived) (hplaced : t.Everywhere (Tree.Placed text)) :
    t.Everywhere (Tree.Fitting text) := by
  have hall := ht.everywhere
  clear ht
  induction hplaced with
  | token h => exact .token (.of_parts hall.here h (by simp [Tree.parts]))
  | phrase h _ ih =>
    have hparts := fun u hu => ih u hu (hall.parts u hu)
    exact .phrase (.of_parts hall.here h hparts) hparts

theorem Program.ofTree_nested {t : Tree} (ht : t.Everywhere (Tree.Fitting text)) {p : Program}
    (h : Program.ofTree text t = .ok p) : p.outline.Nested text := by
  obtain ⟨ss, hss, h⟩ := ok_of_bind h
  cases h
  have hs := ht.here.placed.located
  have hrow : Row text t.start t.stop t.parts := ⟨ht.here.placed.parts, ht.inside⟩
  have hfit := Stmt.ofTrees_fit (hrow.sublist List.filter_sublist) hss
  refine (Fit.node hs (.single ?_)).nested
  split
  · next first last hfirst hlast =>
    rw [← first.outline_span, ← last.outline_span]
    refine Fit.cover hfit ?_ ?_
    · rw [Stmt.outlines_eq_map, List.head?_map, hfirst]
      rfl
    · rw [Stmt.outlines_eq_map, List.getLast?_map, hlast]
      rfl
  · exact Fit.node hs hfit

theorem Tree.ofText_fitting {t : Tree} (h : Tree.ofText text = .ok [t]) : t.Everywhere (Tree.Fitting text) := by
  obtain ⟨_, heq, -, ht⟩ := Tree.ofText_derived h
  cases heq
  exact ht.fitting (Tree.ofText_placed h)

theorem Program.ofChars_nested {p : Program} (h : Program.ofChars text = .ok p) : p.outline.Nested text := by
  obtain ⟨t, ht, hp⟩ := Program.ofChars_eq_ok.1 h
  exact Program.ofTree_nested (Tree.ofText_fitting ht) hp

end

/-- In every script that is read, each node has a span that starts and ends between characters of the text and names the
lines and columns of its ends; children lie inside their parents, one after the other. -/
theorem Program.spans_nested {source : String} {p : Program} (h : Program.parse source = .ok p) :
    p.outline.Nested source.toList ∧ ∀ s ∈ p.outline.spans, s.start ≤ s.stop ∧ s.stop ≤ source.utf8ByteSize := by
  have hnested := Program.ofChars_nested h
  refine ⟨hnested, fun s hs => ?_⟩
  have hlocated := hnested.located_of_mem s hs
  rw [← byteLength_toList]
  exact ⟨hlocated.le, hlocated.stop_le⟩

/-- Two bytes for one letter, parentheses that leave no node, merged spans, and an arrow function on a second line. -/
def accentedSource : String := "if (a) f((b), 'é')[c];\nelse for (;d;) x => d"

/-- The ends of its spans, each node before its children. -/
def accentedRanges : List (Nat × Nat) :=
  [(0, 45), (0, 45), (0, 45), (4, 5), (7, 23), (7, 22), (7, 19), (7, 8), (10, 11),
    (14, 18), (20, 21), (29, 45), (35, 36), (39, 45), (39, 45), (44, 45), (44, 45), (44, 45)]

theorem Program.spans_nested_accentedSource : ∃ p, Program.parse accentedSource = .ok p ∧
    p.outline.spans.map (fun s => (s.start, s.stop)) = accentedRanges ∧
    p.outline.Nested accentedSource.toList ∧
    ∀ s ∈ p.outline.spans, s.start ≤ s.stop ∧ s.stop ≤ accentedSource.utf8ByteSize := by
  have h : (Program.parse accentedSource).toOption.map (fun p => p.outline.spans.map fun s => (s.start, s.stop)) =
      some accentedRanges := by decide +kernel
  obtain ⟨p, hp, hspans⟩ := Option.map_eq_some_iff.1 h
  cases hparse : Program.parse accentedSource with
  | error _ => rw [hparse] at hp; cases hp
  | ok q =>
    rw [hparse] at hp
    cases hp
    exact ⟨p, rfl, hspans, Program.spans_nested hparse⟩

end Stepwise

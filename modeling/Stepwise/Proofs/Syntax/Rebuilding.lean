import Mathlib.Data.List.Induction
import Stepwise.Proofs.Grammar.Rematching
import Stepwise.Proofs.Syntax.Proper
import Stepwise.Proofs.Syntax.Shape

/-!
# Alike trees give alike syntax

What is read from a tree does not depend on where its tokens stand, apart from the spans. If a tree is turned into an
expression or a statement, then every alike tree of another text is turned into one of the same shape, and spans that
were related in the trees are related in the result (`Tree.Alike.carries`, `Program.ofTree_alike`).
-/

namespace Stepwise

/-! ## Doing it again -/

/-- If the first succeeds, so does the second, with a related result. -/
def Redone {ε α : Type} (like : α → α → Prop) (x y : Except ε α) : Prop :=
  ∀ a, x = .ok a → ∃ a', y = .ok a' ∧ like a a'

namespace Redone

variable {ε α β : Type} {like : α → α → Prop} {like' : β → β → Prop}

theorem error {err : ε} {y : Except ε α} : Redone like (.error err) y := nofun

theorem ok {a a' : α} (h : like a a') : Redone like (.ok a : Except ε α) (.ok a') := by
  intro b hb
  cases hb
  exact ⟨a', rfl, h⟩

theorem bind {x y : Except ε α} {f g : α → Except ε β} (h : Redone like x y)
    (hf : ∀ a a', like a a' → Redone like' (f a) (g a')) : Redone like' (x >>= f) (y >>= g) := by
  intro b hb
  obtain ⟨a, rfl, hb⟩ := ok_of_bind hb
  obtain ⟨a', rfl, ha⟩ := h a rfl
  exact hf a a' ha b hb

end Redone

/-- The relation between spans passes to merged spans. -/
def Merging (R : Span → Span → Prop) : Prop :=
  ∀ {s s' t t' : Span}, R s s' → R t t' → R (s.merge t) (s'.merge t')

/-! ## Trees -/

section

variable {S : Tree → Tree → Prop} {t u : Tree} {ts us : List Tree}

theorem Tree.Alike.here (h : t.Alike S u) : S t u := by
  cases h with
  | token h | phrase h _ => exact h

theorem Tree.Alike.rule_eq (h : t.Alike S u) : t.rule = u.rule := by cases h <;> rfl

theorem Tree.Alike.lexeme_eq (h : t.Alike S u) : t.lexeme = u.lexeme := by cases h <;> rfl

theorem Tree.ListAlike.lexemes_eq (h : Tree.ListAlike S ts us) : ts.map Tree.lexeme = us.map Tree.lexeme := by
  induction ts generalizing us with
  | nil => cases h; rfl
  | cons t ts ih =>
    cases h with
    | cons ht hts => rw [List.map_cons, List.map_cons, ht.lexeme_eq, ih hts]

theorem Tree.ListAlike.filter (p : Rule → Bool) (h : Tree.ListAlike S ts us) :
    Tree.ListAlike S (ts.filter (p ·.rule)) (us.filter (p ·.rule)) := by
  induction ts generalizing us with
  | nil => cases h; exact .nil
  | cons t ts ih =>
    rcases h with _ | ⟨ht, hts⟩
    rw [List.filter_cons, List.filter_cons, ht.rule_eq]
    split
    · exact .cons ht (ih hts)
    · exact ih hts

theorem Tree.Alike.paramNames_eq (h : t.Alike S u) : t.paramNames = u.paramNames := by
  cases h with
  | token => rfl
  | phrase _ hparts =>
    rcases hparts with _ | ⟨ht, -⟩
    · rfl
    · cases ht with
      | @token r =>
        by_cases hr : r = .identifier
        · subst hr
          rfl
        · simp [Tree.paramNames, hr]
      | phrase _ hnames => exact hnames.lexemes_eq

end

/-- The nodes have related spans, and what the first is turned into, the second is turned into as well. -/
structure Tree.Carries (R : Span → Span → Prop) (text text' : List Char) (t u : Tree) : Prop where
  span : R (t.span text) (u.span text')
  expr : Redone (Expr.Alike R) (Expr.ofTree text t) (Expr.ofTree text' u)
  stmt : Redone (Stmt.Alike R) (Stmt.ofTree text t) (Stmt.ofTree text' u)

section

variable {R : Span → Span → Prop} {text text' : List Char} {ts us : List Tree} {s s' : Span}

theorem Expr.ofTrees_alike (h : Tree.ListAlike (Tree.Carries R text text') ts us) :
    Redone (Expr.ListAlike R) (Expr.ofTrees text ts) (Expr.ofTrees text' us) := by
  induction ts generalizing us with
  | nil => cases h; exact .ok ⟨rfl, .nil⟩
  | cons t ts ih =>
    cases h with
    | cons ht hts =>
      refine .bind ht.here.expr fun e e' he => .bind (ih hts) fun es es' hes => .ok ⟨?_, ?_⟩
      · simp [he.shape, hes.shape]
      · exact .cons he.spans hes.spans

theorem Stmt.ofTrees_alike (h : Tree.ListAlike (Tree.Carries R text text') ts us) :
    Redone (Stmt.ListAlike R) (Stmt.ofTrees text ts) (Stmt.ofTrees text' us) := by
  induction ts generalizing us with
  | nil => cases h; exact .ok ⟨rfl, .nil⟩
  | cons t ts ih =>
    cases h with
    | cons ht hts =>
      refine .bind ht.here.stmt fun e e' he => .bind (ih hts) fun es es' hes => .ok ⟨?_, ?_⟩
      · simp [he.shape, hes.shape]
      · exact .cons he.spans hes.spans

theorem Expr.ofToken_alike (r : Rule) (l : List Char) (hs : R s s') :
    Redone (Expr.Alike R) (Expr.ofToken r l s) (Expr.ofToken r l s') := by
  have hleaf : Outline.Related R [.node s []] [.node s' []] := .node hs .nil
  cases r
  case identifier | boolean | nullLit => exact .ok ⟨rfl, hleaf⟩
  case number =>
    unfold Expr.ofToken
    cases readDecimal? l with
    | none => exact .error
    | some v => exact .ok ⟨rfl, hleaf⟩
  case string =>
    unfold Expr.ofToken
    cases Scanner.body? l with
    | none => exact .error
    | some body => exact .ok ⟨rfl, hleaf⟩
  all_goals exact .error

/-! ## Chains, accessors and functions -/

theorem Expr.join?_alike {op op' : Tree} (hop : op.rule = op'.rule) (hl : op.lexeme = op'.lexeme)
    (hm : Merging R) {a a' b b' e : Expr} (ha : a.Alike R a')
    (hb : b.Alike R b') (h : Expr.join? op a b = some e) : ∃ e', Expr.join? op' a' b' = some e' ∧ e.Alike R e' := by
  have hspans : Outline.Related R [.node (a.span.merge b.span) [a.outline, b.outline]]
      [.node (a'.span.merge b'.span) [a'.outline, b'.outline]] :=
    .node (hm ha.span hb.span) (.cons ha.spans hb.spans)
  unfold Expr.join? at h ⊢
  rw [← hop, ← hl]
  split at h
  · cases h
    exact ⟨_, rfl, by simp [ha.shape, hb.shape], hspans⟩
  · cases h
    exact ⟨_, rfl, by simp [ha.shape, hb.shape], hspans⟩
  · obtain ⟨op, hop, rfl⟩ := Option.map_eq_some_iff.1 h
    rw [hop]
    exact ⟨_, rfl, by simp [ha.shape, hb.shape], hspans⟩

theorem Expr.ofChain_alike (hm : Merging R) {a a' : Expr} (ha : a.Alike R a')
    (h : Tree.ListAlike (Tree.Carries R text text') ts us) :
    Redone (Expr.Alike R) (Expr.ofChain text s a ts) (Expr.ofChain text' s' a' us) := by
  induction ts using List.twoStepInduction generalizing us a a' with
  | nil => cases h; exact .ok ha
  | singleton _ => exact .error
  | cons_cons op t rest ih _ =>
    rcases h with _ | ⟨hop, _ | ⟨ht, hrest⟩⟩
    refine .bind ht.here.expr fun b b' hb => ?_
    intro e h
    split at h
    · cases h
    · next hjoin =>
      obtain ⟨c, hc, halike⟩ := Expr.join?_alike hop.rule_eq hop.lexeme_eq hm ha hb hjoin
      rw [hc]
      exact ih halike hrest e h

theorem Expr.ofFirst_alike (part : Constituent) (h : Tree.ListAlike (Tree.Carries R text text') ts us) :
    Redone (Expr.Alike R) (Expr.ofFirst text part s ts) (Expr.ofFirst text' part s' us) := by
  cases h with
  | nil => exact .error
  | cons ht _ => exact ht.here.expr

theorem Expr.ofArgs_alike (h : Tree.ListAlike (Tree.Carries R text text') ts us) :
    Redone (Expr.ListAlike R) (Expr.ofArgs text ts) (Expr.ofArgs text' us) := by
  rcases h with _ | ⟨ht, -⟩
  · exact .ok ⟨rfl, .nil⟩
  · rcases ht with _ | ⟨-, hargs⟩
    · exact .ok ⟨rfl, .nil⟩
    · exact Expr.ofTrees_alike hargs

theorem Expr.ofAccessors_alike (hm : Merging R) {a a' : Expr}
    (ha : a.Alike R a') (h : Tree.ListAlike (Tree.Carries R text text') ts us) :
    Redone (Expr.Alike R) (Expr.ofAccessors text s a ts) (Expr.ofAccessors text' s' a' us) := by
  induction ts generalizing us a a' with
  | nil => cases h; exact .ok ha
  | cons t ts ih =>
    rcases h with _ | ⟨ht, hts⟩
    rw [Expr.ofAccessors.eq_def text s a]
    split
    · next heq => cases heq
    · next heq =>
      cases heq
      rcases ht with _ | ⟨hnode, hparts⟩
      rcases hparts with _ | ⟨hsuffix, -⟩
      rcases hsuffix with _ | ⟨-, hargs⟩
      refine .bind (Expr.ofArgs_alike hargs) fun es es' hes =>
        ih ⟨?_, .node (hm ha.span hnode.span) (.cons ha.spans hes.spans)⟩ hts
      simp [ha.shape, hes.shape]
    · next heq =>
      cases heq
      rcases ht with _ | ⟨hnode, hparts⟩
      rcases hparts with _ | ⟨haccess, -⟩
      rcases haccess with _ | ⟨-, hnames⟩
      rcases hnames with _ | ⟨hname, -⟩
      rw [Expr.ofAccessors]
      refine ih ⟨?_, .node (hm ha.span hnode.span) ha.spans⟩ hts
      simp [ha.shape, hname.lexeme_eq]
    · next heq =>
      cases heq
      rcases ht with _ | ⟨hnode, hparts⟩
      rcases hparts with _ | ⟨haccess, -⟩
      rcases haccess with _ | ⟨-, hinside⟩
      refine .bind (Expr.ofFirst_alike _ hinside) fun b b' hb =>
        ih ⟨?_, .node (hm ha.span hnode.span) (.cons ha.spans hb.spans)⟩ hts
      simp [ha.shape, hb.shape]
    · exact .error

theorem FunctionDef.ofParts_alike (hs : R s s') {anonymous : Bool} {name : Option String} {params : List String}
    {body body' : Option Stmt} (hbody : Stmt.OptionAlike R body body')
    (h : Tree.ListAlike (Tree.Carries R text text') ts us) :
    Redone (FunctionDef.Alike R) (FunctionDef.ofParts text s anonymous name params body ts)
      (FunctionDef.ofParts text' s' anonymous name params body' us) := by
  induction ts generalizing us name params body body' with
  | nil =>
    cases h
    unfold FunctionDef.ofParts
    split
    · exact .error
    · cases body with
      | none => exact .error
      | some b =>
        cases body' with
        | none => cases hbody.shape
        | some b' =>
          have hshape : b.shape = b'.shape := Option.some.inj hbody.shape
          exact .ok ⟨by simp [hshape], .node hs hbody.spans⟩
  | cons t ts ih =>
    cases h with
    | cons ht hts =>
      rw [FunctionDef.ofParts.eq_def text s]
      split
      case h_1 heq => cases heq
      case h_2 heq =>
        cases heq
        cases ht
        exact ih hbody hts
      case h_3 heq =>
        cases heq
        cases ht with
        | phrase _ hps =>
          rw [hps.lexemes_eq]
          exact ih hbody hts
      case h_4 heq =>
        cases heq
        cases ht with
        | phrase hspan hparts =>
          refine .bind (Stmt.ofTrees_alike hparts) fun ss ss' hss => ih ⟨?_, ?_⟩ hts
          · simp [hss.shape]
          · exact .node hspan.span hss.spans
      case h_5 heq =>
        cases heq
        split
        · next hk =>
          rw [FunctionDef.ofParts_of_isKeyword (ht.rule_eq ▸ hk)]
          exact ih hbody hts
        · exact .error

/-! ## Expressions -/

theorem Expr.ofAssigned_alike (hs : R s s') {a a' : Expr} (ha : a.Alike R a')
    (h : Tree.ListAlike (Tree.Carries R text text') ts us) :
    Redone (Expr.Alike R) (Expr.ofAssigned text s a ts) (Expr.ofAssigned text' s' a' us) := by
  rcases h with _ | ⟨hop, hts⟩
  · exact .error
  · rw [Expr.ofAssigned, Expr.ofAssigned, hop.lexeme_eq]
    split
    · exact .error
    · refine .bind (Expr.ofFirst_alike _ hts) fun b b' hb => .ok ⟨?_, .node hs (.cons ha.spans hb.spans)⟩
      simp [ha.shape, hb.shape]

theorem Expr.ofChoice_alike (hs : R s s') {a a' : Expr} (ha : a.Alike R a')
    (h : Tree.ListAlike (Tree.Carries R text text') ts us) :
    Redone (Expr.Alike R) (Expr.ofChoice text s a ts) (Expr.ofChoice text' s' a' us) := by
  rcases h with _ | ⟨ht, hts⟩
  · exact .ok ha
  · refine .bind ht.here.expr fun b b' hb => .bind (Expr.ofFirst_alike _ hts) fun c c' hc =>
      .ok ⟨?_, .node hs (.cons ha.spans (.cons hb.spans hc.spans))⟩
    simp [ha.shape, hb.shape, hc.shape]

theorem Expr.ofPhrase_alike (hm : Merging R) (r : Rule) (hs : R s s')
    (h : Tree.ListAlike (Tree.Carries R text text') ts us) :
    Redone (Expr.Alike R) (Expr.ofPhrase text r s ts) (Expr.ofPhrase text' r s' us) := by
  rw [Expr.ofPhrase.eq_def text r s ts]
  split
  case h_1 | h_2 | h_3 | h_4 | h_5 =>
    rcases h with _ | ⟨ht, -⟩
    exact ht.here.expr
  case h_6 =>
    rcases h with _ | ⟨htarget, hrest⟩
    refine .bind htarget.here.expr fun a a' ha => ?_
    have hsame : a.isTarget = a'.isTarget := by rw [← a.isTarget_shape, ha.shape, a'.isTarget_shape]
    rw [hsame]
    cases a'.isTarget with
    | false => exact .error
    | true => exact Expr.ofAssigned_alike hs ha hrest
  case h_7 =>
    rcases h with _ | ⟨hparams, hrest⟩
    rcases hrest with _ | ⟨hbody, -⟩
    rcases hbody with _ | ⟨-, hblocks⟩
    rcases hblocks with _ | ⟨hblock, -⟩
    rcases hblock with _ | ⟨hnode, hparts⟩
    rw [hparams.paramNames_eq]
    refine .bind (Stmt.ofTrees_alike hparts) fun ss ss' hss => .ok ⟨?_, .node hs (.node hnode.span hss.spans)⟩
    simp [hss.shape]
  case h_8 hne =>
    rcases h with _ | ⟨hparams, hrest⟩
    rcases hrest with _ | ⟨hbody, -⟩
    rcases hbody with _ | ⟨-, hvalues⟩
    rcases hvalues with _ | ⟨hvalue, -⟩
    rw [Expr.ofPhrase, hparams.paramNames_eq]
    · refine .bind hvalue.here.expr fun a a' ha => .ok ⟨?_, ?_⟩
      · simp [Stmt.returning, ha.shape]
      · exact .node hs (.node ha.span (.node ha.span ha.spans))
    · rintro start stop parts rfl
      rcases hvalue with _ | _
      exact hne _ _ _ rfl
  case h_10 =>
    rcases h with _ | ⟨ht, hts⟩
    exact .bind ht.here.expr fun a a' ha => Expr.ofChoice_alike hs ha hts
  case h_11 | h_12 | h_13 | h_14 | h_15 | h_16 =>
    rcases h with _ | ⟨ht, hts⟩
    exact .bind ht.here.expr fun a a' ha => Expr.ofChain_alike hm ha hts
  case h_17 =>
    rcases h with _ | ⟨hop, hts⟩
    rcases hop with _ | _
    refine .bind (Expr.ofFirst_alike _ hts) fun a a' ha => .ok ⟨?_, .node hs ha.spans⟩
    simp [ha.shape]
  case h_18 hne =>
    rcases h with _ | ⟨ht, -⟩
    rw [Expr.ofPhrase]
    · exact ht.here.expr
    · rintro start stop l rfl
      rcases ht with _ | _
      exact hne _ _ _ rfl
  case h_19 =>
    rcases h with _ | ⟨hop, hts⟩
    rw [Expr.ofPhrase, hop.lexeme_eq]
    refine .bind (Expr.ofFirst_alike _ hts) fun a a' ha => .ok ⟨?_, .node hs ha.spans⟩
    simp [ha.shape]
  case h_20 =>
    rcases h with _ | ⟨ht, _ | _⟩
    exact ht.here.expr
  case h_21 =>
    rcases h with _ | ⟨harg, _ | ⟨hop, -⟩⟩
    rw [Expr.ofPhrase, hop.lexeme_eq]
    refine .bind harg.here.expr fun a a' ha => .ok ⟨?_, .node hs ha.spans⟩
    simp [ha.shape]
  case h_22 =>
    rcases h with _ | ⟨ht, hts⟩
    exact .bind ht.here.expr fun a a' ha => Expr.ofAccessors_alike hm ha hts
  case h_23 | h_24 =>
    rw [Expr.ofPhrase]
    exact .ok ⟨rfl, .node hs .nil⟩
  case h_9 | h_25 => exact .error

/-! ## Statements -/

theorem Declarator.ofTrees_alike (kind : VarKind) (h : Tree.ListAlike (Tree.Carries R text text') ts us) :
    Redone (Declarator.ListAlike R) (Declarator.ofTrees text kind ts) (Declarator.ofTrees text' kind us) := by
  induction ts generalizing us with
  | nil => cases h; exact .ok ⟨rfl, .nil⟩
  | cons t ts ih =>
    rcases h with _ | ⟨ht, hts⟩
    rw [Declarator.ofTrees.eq_def text kind]
    split
    · next heq => cases heq
    · next heq =>
      cases heq
      rcases ht with _ | ⟨hnode, hparts⟩
      rcases hparts with _ | ⟨hname, _ | _⟩
      rw [Declarator.ofTrees, hname.lexeme_eq]
      dsimp only
      split
      · exact .error
      · refine .bind (ih hts) fun ds ds' hds => .ok ⟨?_, .cons (.node hnode.span .nil) hds.spans⟩
        simp [hds.shape]
    · next heq =>
      cases heq
      rcases ht with _ | ⟨hnode, hparts⟩
      rcases hparts with _ | ⟨hname, _ | ⟨hinit, -⟩⟩
      rw [Declarator.ofTrees, hname.lexeme_eq]
      refine .bind hinit.here.expr fun e e' he => .bind (ih hts) fun ds ds' hds =>
        .ok ⟨?_, .cons (.node hnode.span he.spans) hds.spans⟩
      simp [he.shape, hds.shape]
    · exact .error

/-- Declarations of one kind with alike entries. -/
def Declarator.EntriesAlike (R : Span → Span → Prop) (entries entries' : VarKind × List Declarator) : Prop :=
  entries.1 = entries'.1 ∧ Declarator.ListAlike R entries.2 entries'.2

theorem Declarator.ofParts_alike (h : Tree.ListAlike (Tree.Carries R text text') ts us) :
    Redone (Declarator.EntriesAlike R) (Declarator.ofParts text s ts) (Declarator.ofParts text' s' us) := by
  rcases h with _ | ⟨hkind, hentries⟩
  · exact .error
  · rw [Declarator.ofParts, Declarator.ofParts, hkind.lexeme_eq]
    split
    · exact .error
    · exact .bind (Declarator.ofTrees_alike _ hentries) fun ds ds' hds => .ok ⟨rfl, hds⟩

theorem Stmt.ofElse_alike {t u : Tree} (h : t.Alike (Tree.Carries R text text') u) :
    Redone (Stmt.Alike R) (Stmt.ofElse text s t) (Stmt.ofElse text' s' u) := by
  rcases h with _ | ⟨-, hparts⟩
  · exact .error
  · rcases hparts with _ | ⟨-, _ | ⟨hbranch, -⟩⟩
    · exact .error
    · exact .error
    · exact hbranch.here.stmt

theorem Stmt.ofBranches_alike (hs : R s s') {a a' : Expr} (ha : a.Alike R a')
    (h : Tree.ListAlike (Tree.Carries R text text') ts us) :
    Redone (Stmt.Alike R) (Stmt.ofBranches text s a ts) (Stmt.ofBranches text' s' a' us) := by
  rcases h with _ | ⟨hthen, _ | ⟨hclause, -⟩⟩
  · exact .error
  · refine .bind hthen.here.stmt fun b b' hb => .ok ⟨?_, .node hs (.cons ha.spans hb.spans)⟩
    simp [ha.shape, hb.shape]
  · refine .bind hthen.here.stmt fun b b' hb => .bind (Stmt.ofElse_alike hclause) fun c c' hc =>
      .ok ⟨?_, .node hs (.cons ha.spans (.cons hb.spans hc.spans))⟩
    simp [ha.shape, hb.shape, hc.shape]

theorem Stmt.ofPhrase_alike (r : Rule) (hs : R s s') (h : Tree.ListAlike (Tree.Carries R text text') ts us) :
    Redone (Stmt.Alike R) (Stmt.ofPhrase text r s ts) (Stmt.ofPhrase text' r s' us) := by
  rw [Stmt.ofPhrase.eq_def text r s ts]
  split
  case h_1 =>
    rcases h with _ | ⟨ht, -⟩
    exact ht.here.stmt
  case h_2 =>
    rcases h with _ | ⟨hdeclaration, -⟩
    rcases hdeclaration with _ | ⟨-, hparts⟩
    refine .bind (Declarator.ofParts_alike hparts) fun ds ds' hds => .ok ⟨?_, .node hs hds.2.spans⟩
    simp [hds.1, hds.2.shape]
  case h_3 =>
    rcases h with _ | ⟨-, _ | ⟨htest, hbranches⟩⟩
    exact .bind htest.here.expr fun a a' ha => Stmt.ofBranches_alike hs ha hbranches
  case h_4 | h_5 | h_6 | h_9 =>
    rw [Stmt.ofPhrase]
    exact .ok ⟨rfl, .node hs .nil⟩
  case h_7 =>
    rcases h with _ | ⟨-, _ | ⟨hvalue, -⟩⟩
    refine .bind hvalue.here.expr fun a a' ha => .ok ⟨?_, .node hs ha.spans⟩
    simp [ha.shape]
  case h_8 hne =>
    have hnone : Stmt.ofPhrase text' .returnStmt s' us = .ok (.ret none s') := by
      rcases h with _ | ⟨-, _ | _⟩
      · rfl
      · rfl
      · exact absurd rfl (hne _ _ _)
    rw [hnone]
    exact .ok ⟨rfl, .node hs .nil⟩
  case h_10 =>
    rcases h with _ | ⟨ht, -⟩
    refine .bind ht.here.expr fun a a' ha => .ok ⟨?_, .node hs ha.spans⟩
    simp [ha.shape]
  case h_11 => exact .error

theorem ForInit.ofParts_alike (hs : R s s') (h : Tree.ListAlike (Tree.Carries R text text') ts us) :
    Redone (fun i i' => ForInit.OptionAlike R (some i) (some i')) (ForInit.ofParts text s ts)
      (ForInit.ofParts text' s' us) := by
  rw [ForInit.ofParts.eq_def text]
  split
  · exact .error
  · rcases h with _ | ⟨hdeclaration, -⟩
    rcases hdeclaration with _ | ⟨-, hparts⟩
    refine .bind (Declarator.ofParts_alike hparts) fun ds ds' hds => .ok ⟨?_, .node hs hds.2.spans⟩
    simp [hds.1, hds.2.shape]
  · next hne =>
    rcases h with _ | ⟨ht, -⟩
    rw [ForInit.ofParts]
    · refine .bind ht.here.expr fun a a' ha => .ok ⟨?_, ha.spans⟩
      simp [ha.shape]
    · rintro start stop parts rfl
      rcases ht with _ | _
      exact hne _ _ _ rfl

theorem Stmt.ofForParts_alike (hs : R s s') {init init' : Option ForInit} {test test' update update' : Option Expr}
    {body body' : Option Stmt} (hinit : ForInit.OptionAlike R init init') (htest : Expr.OptionAlike R test test')
    (hupdate : Expr.OptionAlike R update update') (hbody : Stmt.OptionAlike R body body')
    (h : Tree.ListAlike (Tree.Carries R text text') ts us) :
    Redone (Stmt.Alike R) (Stmt.ofForParts text s init test update body ts)
      (Stmt.ofForParts text' s' init' test' update' body' us) := by
  induction ts generalizing us init init' test test' update update' body body' with
  | nil =>
    cases h
    cases body with
    | none => exact .error
    | some b =>
      cases body' with
      | none => cases hbody.shape
      | some b' =>
        have hshape : b.shape = b'.shape := Option.some.inj hbody.shape
        refine .ok ⟨?_, .node hs (hinit.spans.append (htest.spans.append (hupdate.spans.append hbody.spans)))⟩
        simp [hinit.shape, htest.shape, hupdate.shape, hshape]
  | cons t ts ih =>
    rcases h with _ | ⟨ht, hts⟩
    rw [Stmt.ofForParts.eq_def text s]
    split
    case h_1 heq => cases heq
    case h_2 heq =>
      cases heq
      rcases ht with _ | ⟨hnode, hparts⟩
      exact .bind (ForInit.ofParts_alike hnode.span hparts) fun i i' hi => ih hi htest hupdate hbody hts
    case h_3 heq =>
      cases heq
      rcases ht with _ | ⟨-, hparts⟩
      refine .bind (Expr.ofFirst_alike _ hparts) fun a a' ha => ih hinit ⟨?_, ha.spans⟩ hupdate hbody hts
      simp [ha.shape]
    case h_4 heq =>
      cases heq
      rcases ht with _ | ⟨-, hparts⟩
      refine .bind (Expr.ofFirst_alike _ hparts) fun a a' ha => ih hinit htest ⟨?_, ha.spans⟩ hbody hts
      simp [ha.shape]
    case h_5 hinitial htesting hupdating heq =>
      cases heq
      split
      · next hk =>
        rw [Stmt.ofForParts_of_isKeyword (ht.rule_eq ▸ hk)]
        exact ih hinit htest hupdate hbody hts
      · next hk =>
        rw [Stmt.ofForParts, if_neg (ht.rule_eq ▸ hk)]
        · refine .bind ht.here.stmt fun b b' hb => ih hinit htest hupdate ⟨?_, hb.spans⟩ hts
          simp [hb.shape]
        -- the body is none of the parts of the header, nor is its counterpart
        · rintro _ _ _ rfl
          rcases ht with _ | _
          exact hinitial _ _ _ rfl
        · rintro _ _ _ rfl
          rcases ht with _ | _
          exact htesting _ _ _ rfl
        · rintro _ _ _ rfl
          rcases ht with _ | _
          exact hupdating _ _ _ rfl

/-! ## Scripts -/

theorem Tree.Carries.token {r : Rule} {start stop start' stop' : Nat} {lexeme : List Char}
    (hs : R (.ofOffsets text start stop) (.ofOffsets text' start' stop')) :
    Tree.Carries R text text' (.token r start stop lexeme) (.token r start' stop' lexeme) :=
  ⟨hs, Expr.ofToken_alike r lexeme hs, .error⟩

theorem Tree.Carries.phrase (hm : Merging R) {r : Rule}
    {start stop start' stop' : Nat} (hs : R (.ofOffsets text start stop) (.ofOffsets text' start' stop'))
    (h : Tree.ListAlike (Tree.Carries R text text') ts us) :
    Tree.Carries R text text' (.phrase r start stop ts) (.phrase r start' stop' us) := by
  have hfunction (anonymous : Bool) : Redone (FunctionDef.Alike R)
      (FunctionDef.ofParts text (.ofOffsets text start stop) anonymous none [] none ts)
      (FunctionDef.ofParts text' (.ofOffsets text' start' stop') anonymous none [] none us) :=
    FunctionDef.ofParts_alike hs ⟨rfl, .nil⟩ h
  refine ⟨hs, ?_, ?_⟩
  · by_cases hr : r = .functionExpr
    · subst hr
      refine .bind (hfunction true) fun fn fn' hfn => .ok ⟨?_, hfn.spans⟩
      simp [hfn.shape]
    · rw [Expr.ofTree, Expr.ofTree]
      · exact Expr.ofPhrase_alike hm r hs h
      · exact hr
      · exact hr
  · rw [Stmt.ofTree.eq_def text]
    split
    case h_1 heq => cases heq
    case h_2 heq =>
      cases heq
      refine .bind (hfunction false) fun fn fn' hfn => .ok ⟨?_, hfn.spans⟩
      simp [hfn.shape]
    case h_3 heq =>
      cases heq
      exact Stmt.ofForParts_alike hs ⟨rfl, .nil⟩ ⟨rfl, .nil⟩ ⟨rfl, .nil⟩ ⟨rfl, .nil⟩ h
    case h_4 heq =>
      cases heq
      refine .bind (Stmt.ofTrees_alike h) fun ss ss' hss => .ok ⟨?_, .node hs hss.spans⟩
      simp [hss.shape]
    case h_5 hdecl hfor hblock heq =>
      cases heq
      rw [Stmt.ofTree]
      · exact Stmt.ofPhrase_alike r hs h
      · exact hdecl
      · exact hfor
      · exact hblock

mutual

theorem Tree.Alike.carries (hm : Merging R) : ∀ {t u : Tree},
    t.Alike (fun t u => R (t.span text) (u.span text')) u → t.Alike (Tree.Carries R text text') u
  | _, _, .token hs => .token (.token hs)
  | _, _, .phrase hs hparts => .phrase (.phrase hm hs (hparts.carries hm)) (hparts.carries hm)

theorem Tree.ListAlike.carries (hm : Merging R) :
    ∀ {ts us : List Tree}, Tree.ListAlike (fun t u => R (t.span text) (u.span text')) ts us →
      Tree.ListAlike (Tree.Carries R text text') ts us
  | _, _, .nil => .nil
  | _, _, .cons ht hts => .cons (ht.carries hm) (hts.carries hm)

end

/-- The statements of a script are alike; its own span covers them or the whole text. -/
theorem Program.ofTree_alike {t u : Tree} (h : t.Alike (Tree.Carries R text text') u) {p : Program}
    (hp : Program.ofTree text t = .ok p) : ∃ p' ss ss' s s', Program.ofTree text' u = .ok p' ∧ p.body = .block ss s ∧
      p'.body = .block ss' s' ∧ Stmt.ListAlike R ss ss' := by
  obtain ⟨ss, hss, hp⟩ := ok_of_bind hp
  cases hp
  have hparts : Tree.ListAlike (Tree.Carries R text text') t.parts u.parts := by
    cases h with
    | token => exact .nil
    | phrase _ hparts => exact hparts
  obtain ⟨ss', hss', halike⟩ := Stmt.ofTrees_alike (hparts.filter (· = .statement)) ss hss
  exact ⟨_, ss, ss', _, _, bind_of_ok hss', rfl, rfl, halike⟩

end

end Stepwise

import Stepwise.Check.Visit
import Stepwise.Proofs.Syntax.Nesting
import Stepwise.Proofs.Syntax.Rebuilding

/-!
# The lines of nodes

Every node of a script that was read stands on a line of its text (`Program.line_le_lineCount`). The number of lines is
taken strictly: what follows the last line feed is a line only if there is something. So it does not suffice that nodes
lie in the text; they must not be empty. This holds of all trees inside a statement (`Tree.Derived.filled`), and what is
read from such trees has spans that are not empty either (`Program.ofTree_filled`).
-/

namespace Stepwise

open Cursor (byteLength)

/-! ## Trees inside a statement -/

/-- Only the whole script has a part that may be empty, the end of the text. -/
theorem Rule.mentioned_filled {r : Rule} {p : Pattern} (hr : r.definition = .phrase p) (hne : r.mayBeEmpty = false) :
    ∀ s ∈ p.mentioned, s.mayBeEmpty = false := by
  cases r <;> cases hr <;> first | exact absurd hne (by decide) | decide

theorem Tree.ListAlike.self {S : Tree → Tree → Prop} {ts : List Tree} (h : ∀ t ∈ ts, t.Alike S t) :
    Tree.ListAlike S ts ts := by
  induction ts with
  | nil => exact .nil
  | cons t ts ih =>
    obtain ⟨ht, hts⟩ := List.forall_mem_cons.1 h
    exact .cons ht (ih hts)

section

variable {text : List Char}

theorem Tree.Derived.filled {t : Tree} (ht : t.Derived) (hplaced : t.Everywhere (Tree.Placed text))
    (hne : t.rule.mayBeEmpty = false) : t.Alike (fun t _ => t.start < t.stop) t := by
  induction hplaced with
  | token h => exact .token (h.filled hne)
  | phrase h _ ih =>
    cases ht with
    | phrase hr hp =>
      refine .phrase (h.filled hne) (.self fun u hu => ih u hu (hp.everywhere u hu).here ?_)
      exact Rule.mentioned_filled hr hne _ (hp.rule_mem u hu)

/-! ## Spans of what is read -/

/-- The first span is not empty. -/
def Span.Filled (s _ : Span) : Prop := s.start < s.stop

theorem Span.merging_filled : Merging Span.Filled := by
  intro s s' t t' hs ht
  unfold Span.Filled Span.merge at *
  dsimp only
  split <;> split <;> omega

theorem Outline.Related.filled {os os' : List Outline} (h : Outline.Related Span.Filled os os') :
    ∀ s ∈ Outline.listSpans os, s.start < s.stop := by
  unfold Outline.Related at h
  generalize Outline.listSpans os = spans at h ⊢
  generalize Outline.listSpans os' = spans' at h
  induction h with
  | nil => simp
  | cons hs _ ih => exact List.forall_mem_cons.2 ⟨hs, ih⟩

/-- The statements of a script have no empty spans inside. -/
theorem Program.ofTree_filled {t : Tree} (hplaced : t.Everywhere (Tree.Placed text))
    (hderived : t.Everywhere Tree.Derived) {p : Program} (hp : Program.ofTree text t = .ok p) :
    ∃ ss span, p.body = .block ss span ∧ ∀ s ∈ Outline.listSpans (Stmt.outlines ss), s.start < s.stop := by
  obtain ⟨ss, hss, hp⟩ := ok_of_bind hp
  cases hp
  have hself : Tree.ListAlike (fun t u => Span.Filled (t.span text) (u.span text))
      (t.parts.filter (·.rule = .statement)) (t.parts.filter (·.rule = .statement)) := by
    refine .self fun u hu => ?_
    obtain ⟨hmem, hrule⟩ := List.mem_filter.1 hu
    have hstatement : u.rule = .statement := of_decide_eq_true hrule
    exact (hderived.inside u hmem).here.filled (hplaced.inside u hmem) (by rw [hstatement]; rfl)
  obtain ⟨_, -, halike⟩ := Stmt.ofTrees_alike (hself.carries Span.merging_filled) ss hss
  exact ⟨ss, _, rfl, halike.spans.filled⟩

end

/-! ## Spans of nodes -/

def Node.span : Node → Span
  | stmt s => s.span
  | expr e => e.span

/-- The spans of the nodes are among those of the outlines. -/
def Enclosed (nodes : List Visit) (os : List Outline) : Prop := ∀ x ∈ nodes, x.node.span ∈ Outline.listSpans os

namespace Enclosed

variable {nodes more : List Visit} {os os' : List Outline}

theorem nil : Enclosed [] [] := by simp [Enclosed]

theorem append (h : Enclosed nodes os) (hm : Enclosed more os') : Enclosed (nodes ++ more) (os ++ os') := by
  intro x hx
  rw [Outline.mem_listSpans]
  rcases List.mem_append.1 hx with hx | hx
  · obtain ⟨o, ho, hs⟩ := Outline.mem_listSpans.1 (h x hx)
    exact ⟨o, List.mem_append_left _ ho, hs⟩
  · obtain ⟨o, ho, hs⟩ := Outline.mem_listSpans.1 (hm x hx)
    exact ⟨o, List.mem_append_right _ ho, hs⟩

theorem inside (h : Enclosed nodes os) (s : Span) : Enclosed nodes [.node s os] := by
  intro x hx
  rw [Outline.listSpans, Outline.spans, Outline.listSpans, List.append_nil]
  exact List.mem_cons_of_mem _ (h x hx)

theorem node {n : Node} {d : Nat} {s : Span} (h : Enclosed nodes os) (hs : n.span = s) :
    Enclosed (⟨n, d⟩ :: nodes) [.node s os] := by
  refine List.forall_mem_cons.2 ⟨?_, h.inside s⟩
  rw [hs, Outline.listSpans, Outline.spans]
  exact List.mem_cons_self

end Enclosed

mutual

theorem Stmt.visits_enclosed (d : Nat) : ∀ s : Stmt, Enclosed (s.visits d) [s.outline]
  | .block body _ => .node (Stmt.listVisits_enclosed d body) rfl
  | .declare _ decls _ => .node (Declarator.listVisits_enclosed d decls) rfl
  | .function (.mk _ _ body _ _) => .node (Stmt.visits_enclosed (d + 1) body) rfl
  | .expr e _ => .node (Expr.visits_enclosed d e) rfl
  | .ifElse test thenS elseS _ =>
    .node (((Expr.visits_enclosed d test).append (Stmt.visits_enclosed d thenS)).append
      (Stmt.optionVisits_enclosed d elseS)) rfl
  | .for init test update body _ => by
    have hparts := (((ForInit.optionVisits_enclosed d init).append (Expr.optionVisits_enclosed d test)).append
      (Expr.optionVisits_enclosed d update)).append (Stmt.visits_enclosed d body)
    rw [List.append_assoc (_ ++ _ : List Outline), List.append_assoc (_ : List Outline)] at hparts
    exact .node hparts rfl
  | .ret value _ => .node (Expr.optionVisits_enclosed d value) rfl
  | .empty _ => .node .nil rfl
  | .unsupported _ _ => .node .nil rfl

theorem Stmt.listVisits_enclosed (d : Nat) : ∀ body : List Stmt, Enclosed (Stmt.listVisits d body) (Stmt.outlines body)
  | [] => .nil
  | s :: body => (Stmt.visits_enclosed d s).append (Stmt.listVisits_enclosed d body)

theorem Stmt.optionVisits_enclosed (d : Nat) : ∀ s : Option Stmt, Enclosed (Stmt.optionVisits d s) (Stmt.optionOutlines s)
  | none => .nil
  | some s => Stmt.visits_enclosed d s

theorem Declarator.listVisits_enclosed (d : Nat) : ∀ decls : List Declarator,
    Enclosed (Declarator.listVisits d decls) (Declarator.outlines decls)
  | [] => .nil
  | .mk _ init s :: decls => ((Expr.optionVisits_enclosed d init).inside s).append (Declarator.listVisits_enclosed d decls)

theorem ForInit.optionVisits_enclosed (d : Nat) : ∀ init : Option ForInit,
    Enclosed (ForInit.optionVisits d init) (ForInit.optionOutlines init)
  | none => .nil
  | some (.declare _ decls s) => (Declarator.listVisits_enclosed d decls).inside s
  | some (.expr e) => Expr.visits_enclosed d e

theorem Expr.visits_enclosed (d : Nat) : ∀ e : Expr, Enclosed (e.visits d) [e.outline]
  | .member object key _ => .node ((Expr.visits_enclosed d object).append (MemberKey.visits_enclosed d key)) rfl
  | .call callee args _ => .node ((Expr.visits_enclosed d callee).append (Expr.listVisits_enclosed d args)) rfl
  | .binary _ left right _ | .logical _ left right _ =>
    .node ((Expr.visits_enclosed d left).append (Expr.visits_enclosed d right)) rfl
  | .unary _ arg _ | .update _ _ arg _ => .node (Expr.visits_enclosed d arg) rfl
  | .assign _ target value _ => .node ((Expr.visits_enclosed d target).append (Expr.visits_enclosed d value)) rfl
  | .ternary condition consequent alternate _ =>
    .node (((Expr.visits_enclosed d condition).append (Expr.visits_enclosed d consequent)).append
      (Expr.visits_enclosed d alternate)) rfl
  | .function (.mk _ _ body _ _) => .node (Stmt.visits_enclosed (d + 1) body) rfl
  | .bool _ _ | .num _ _ | .str _ _ | .null _ | .ident _ _ | .unsupported _ _ => .node .nil rfl

theorem Expr.listVisits_enclosed (d : Nat) : ∀ es : List Expr, Enclosed (Expr.listVisits d es) (Expr.outlines es)
  | [] => .nil
  | e :: es => (Expr.visits_enclosed d e).append (Expr.listVisits_enclosed d es)

theorem Expr.optionVisits_enclosed (d : Nat) : ∀ e : Option Expr, Enclosed (Expr.optionVisits d e) (Expr.optionOutlines e)
  | none => .nil
  | some e => Expr.visits_enclosed d e

theorem MemberKey.visits_enclosed (d : Nat) : ∀ key : MemberKey, Enclosed (key.visits d) key.outlines
  | .fixed _ => .nil
  | .computed e => Expr.visits_enclosed d e

end

/-! ## Lines -/

/-- The number of lines of a text: a line feed ends a line, and what follows the last one is a line unless it is empty. -/
def lineCount (text : List Char) : Nat := text.count '\n' + if lastLine text = [] then 0 else 1

theorem count_lt_lineCount (before : List Char) {after : List Char} (h : after ≠ []) :
    before.count '\n' < lineCount (before ++ after) := by
  unfold lineCount
  rw [List.count_append]
  by_cases hn : '\n' ∈ after
  · have hpos := List.count_pos_iff.2 hn
    omega
  · have hlast : lastLine (before ++ after) ≠ [] := by
      obtain ⟨c, back, hback⟩ := List.exists_cons_of_ne_nil (List.reverse_ne_nil_iff.2 h)
      have hc : c ≠ '\n' := by
        rintro rfl
        exact hn (List.mem_reverse.1 (hback ▸ List.mem_cons_self))
      simp [lastLine, hback, hc]
    rw [if_neg hlast]
    omega

/-- Every node of a script stands on a line of its text; the block of all statements need not, if there are none. -/
theorem Program.line_le_lineCount {source : String} {p : Program} (h : Program.parse source = .ok p) {x : Visit}
    (hx : x ∈ p.visits) (hne : ∀ body span, x.node ≠ .stmt (.block body span)) :
    x.node.span.line ≤ lineCount source.toList := by
  obtain ⟨t, ht, hp⟩ := Program.ofChars_eq_ok.1 h
  obtain ⟨_, heq, -, hderived⟩ := Tree.ofText_derived ht
  cases heq
  obtain ⟨ss, span, hbody, hfilled⟩ := Program.ofTree_filled (Tree.ofText_placed ht) hderived.everywhere hp
  have hmem : x.node.span ∈ Outline.listSpans (Stmt.outlines ss) := by
    rw [Program.visits, hbody, Stmt.visits] at hx
    rcases List.mem_cons.1 hx with rfl | hx
    · exact absurd rfl (hne ss span)
    · exact Stmt.listVisits_enclosed 0 ss x hx
  have hall : x.node.span ∈ p.outline.spans := by
    rw [Program.outline, hbody, Stmt.outline]
    simp [Outline.spans, Outline.listSpans, hmem]
  have hlocated := (Program.ofChars_nested h).located_of_mem _ hall
  have hlt := Nat.lt_of_lt_of_le (hfilled _ hmem) hlocated.stop_le
  obtain ⟨before, after, htext, hoffset, hline, -⟩ := hlocated.start
  have hafter : after ≠ [] := by
    rintro rfl
    rw [htext, List.append_nil] at hlt
    omega
  have hcount := count_lt_lineCount before hafter
  rw [htext, Span.line, ← hline]
  exact hcount

end Stepwise

import Stepwise.Proofs.Grammar.Placement
import Stepwise.Syntax.Tree

/-!
# Outlines of syntax trees

The outline of a node is its span with the outlines of its children, in the order in which they are written
(`Expr.outline`, `Stmt.outline`, `Program.outline`). It is nested in a text if

* each span starts and ends between two characters of the text and names the lines and columns of its ends
  (`Span.Located`);
* the spans of children lie inside the span of their parent, one after the other (`Outline.Nested`).

`Outline.Fits` and `Fit` say that one outline, or several in a row, are nested and lie between two offsets.
-/

namespace Stepwise

open Cursor (byteLength)

/-! ## Positions -/

/-- The characters behind the last line feed of a text. -/
def lastLine (text : List Char) : List Char := (text.reverse.takeWhile (· ≠ '\n')).reverse

/-- The offset lies between two characters of the text, after `line` line feeds, and `col` characters stand between it and
the last of these. -/
def LiesAt (text : List Char) (offset line col : Nat) : Prop :=
  ∃ before after, text = before ++ after ∧ byteLength before = offset ∧ before.count '\n' = line ∧
    (lastLine before).length = col

namespace Position

theorem foldl_advance (text : List Char) :
    text.foldl advance ⟨0, 0⟩ = ⟨text.count '\n', (lastLine text).length⟩ := by
  -- The induction is on the text from its end, where the position advances.
  rw [← List.reverse_reverse text]
  generalize text.reverse = back
  induction back with
  | nil => rfl
  | cons c back ih =>
    rw [List.reverse_cons, List.foldl_append, ih]
    by_cases hc : c = '\n' <;> simp [advance, lastLine, hc]

theorem scan_append (before after : List Char) (seen : Nat) (p : Position) :
    scan (seen + byteLength before) (before ++ after) seen p = before.foldl advance p := by
  induction before generalizing seen p with
  | nil => cases after <;> simp [scan]
  | cons c before ih =>
    have hpos := c.utf8Size_pos
    have hlt : ¬ seen + byteLength (c :: before) ≤ seen := by
      rw [Cursor.byteLength_cons]
      omega
    rw [List.cons_append, scan, if_neg hlt, Cursor.byteLength_cons, ← Nat.add_assoc, ih]
    rfl

theorem ofOffset_append (before after : List Char) :
    ofOffset (before ++ after) (byteLength before) = ⟨before.count '\n', (lastLine before).length⟩ := by
  have h := scan_append before after 0 ⟨0, 0⟩
  rw [Nat.zero_add] at h
  rw [ofOffset, h, foldl_advance]

end Position

theorem IsBoundary.liesAt {text : List Char} {offset : Nat} (h : IsBoundary text offset) :
    LiesAt text offset (Position.ofOffset text offset).line (Position.ofOffset text offset).col := by
  obtain ⟨before, after, rfl, rfl⟩ := h
  rw [Position.ofOffset_append]
  exact ⟨before, after, rfl, rfl, rfl, rfl⟩

/-- The bytes of a string are those of its characters. -/
theorem byteLength_toList (s : String) : byteLength s.toList = s.utf8ByteSize := by
  have h (cs : List Char) : byteLength cs = (String.ofList cs).utf8ByteSize := by
    induction cs with
    | nil => simp
    | cons c cs ih => rw [String.ofList_cons, String.utf8ByteSize_append, String.utf8ByteSize_singleton, ← ih,
        Cursor.byteLength_cons]
  rw [h, String.ofList_toList]

/-! ## Spans -/

namespace Span

/-- Both ends of the span lie between characters of the text, and the lines and columns are theirs. -/
structure Located (text : List Char) (s : Span) : Prop where
  start : LiesAt text s.start s.startLine s.startCol
  stop : LiesAt text s.stop s.stopLine s.stopCol
  le : s.start ≤ s.stop

variable {text : List Char} {s t : Span}

theorem Located.stop_le (h : s.Located text) : s.stop ≤ byteLength text := by
  obtain ⟨before, after, rfl, hb, -⟩ := h.stop
  rw [← hb, Cursor.byteLength_append]
  exact Nat.le_add_right _ _

theorem located_ofOffsets {start stop : Nat} (hs : IsBoundary text start) (he : IsBoundary text stop)
    (hle : start ≤ stop) : (ofOffsets text start stop).Located text := ⟨hs.liesAt, he.liesAt, hle⟩

theorem merge_start (h : s.start ≤ t.start) : (s.merge t).start = s.start := by
  unfold merge
  rw [if_pos h]

theorem merge_stop (h : s.stop ≤ t.stop) : (s.merge t).stop = t.stop := by
  unfold merge
  dsimp only
  split
  · omega
  · rfl

theorem Located.merge (hs : s.Located text) (ht : t.Located text) : (s.merge t).Located text := by
  have hle := hs.le
  have hle' := ht.le
  unfold Span.merge
  dsimp only
  split <;> split
  · exact ⟨hs.start, hs.stop, hle⟩
  · exact ⟨hs.start, ht.stop, by dsimp only; omega⟩
  · exact ⟨ht.start, hs.stop, by dsimp only; omega⟩
  · exact ⟨ht.start, ht.stop, hle'⟩

end Span

/-! ## Outlines -/

/-- A span and the outlines of what stands inside. -/
inductive Outline where
  | node (span : Span) (children : List Outline)

namespace Outline

def span : Outline → Span
  | node s _ => s

def range (o : Outline) : Nat × Nat := (o.span.start, o.span.stop)

mutual

/-- All spans of an outline. -/
def spans : Outline → List Span
  | node s children => s :: listSpans children

def listSpans : List Outline → List Span
  | [] => []
  | o :: os => o.spans ++ listSpans os

end

theorem mem_listSpans {s : Span} {os : List Outline} : s ∈ listSpans os ↔ ∃ o ∈ os, s ∈ o.spans := by
  induction os with
  | nil => simp [listSpans]
  | cons o os ih => simp [listSpans, ih]

/-- All spans are located in the text, and children lie inside their parents, one after the other. -/
inductive Nested (text : List Char) : Outline → Prop where
  | node {span : Span} {children : List Outline} (located : span.Located text)
      (inside : ∀ o ∈ children, span.start ≤ o.span.start ∧ o.span.stop ≤ span.stop)
      (ordered : children.Pairwise fun o o' => o.span.stop ≤ o'.span.start)
      (deep : ∀ o ∈ children, Nested text o) : Nested text (node span children)

theorem Nested.located {text : List Char} {o : Outline} (h : o.Nested text) : o.span.Located text := by
  cases h with
  | node located _ _ _ => exact located

/-- All spans of a nested outline are located in the text. -/
theorem Nested.located_of_mem {text : List Char} {o : Outline} (h : o.Nested text) :
    ∀ s ∈ o.spans, s.Located text := by
  induction h with
  | node located _ _ _ ih =>
    intro s hs
    rcases List.mem_cons.1 hs with rfl | hs
    · exact located
    · obtain ⟨o, ho, hs⟩ := mem_listSpans.1 hs
      exact ih o ho s hs

/-- A nested outline between two offsets. -/
structure Fits (text : List Char) (lo hi : Nat) (o : Outline) : Prop where
  nested : o.Nested text
  start : lo ≤ o.span.start
  stop : o.span.stop ≤ hi

theorem Fits.mono {text : List Char} {lo lo' hi hi' : Nat} {o : Outline} (h : o.Fits text lo hi) (hlo : lo' ≤ lo)
    (hhi : hi ≤ hi') : o.Fits text lo' hi' := ⟨h.nested, Nat.le_trans hlo h.start, Nat.le_trans h.stop hhi⟩

/-- A nested outline fits into its own span. -/
theorem Fits.own_span {text : List Char} {lo hi : Nat} {o : Outline} {s : Span} (h : o.Fits text lo hi)
    (hs : o.span = s) : s.Located text ∧ lo ≤ s.start ∧ s.stop ≤ hi ∧ o.Fits text s.start s.stop := by
  subst hs
  exact ⟨h.nested.located, h.start, h.stop, h.nested, Nat.le_refl _, Nat.le_refl _⟩

end Outline

/-- Nested outlines between two offsets, one after the other. -/
structure Fit (text : List Char) (lo hi : Nat) (outlines : List Outline) : Prop where
  spread : Spread lo (outlines.map Outline.range) hi
  nested : ∀ o ∈ outlines, o.Nested text

namespace Fit

variable {text : List Char} {lo mid hi : Nat} {o : Outline} {os more : List Outline}

theorem nil (h : lo ≤ hi) : Fit text lo hi [] := ⟨.nil h, by simp⟩

theorem cons {start stop : Nat} (ho : o.Fits text start stop) (hlo : lo ≤ start) (h : Fit text stop hi os) :
    Fit text lo hi (o :: os) := by
  have hle := ho.nested.located.le
  refine ⟨.cons (Nat.le_trans hlo ho.start) hle (h.spread.mono ho.stop (Nat.le_refl _)), ?_⟩
  exact List.forall_mem_cons.2 ⟨ho.nested, h.nested⟩

theorem single (ho : o.Fits text lo hi) : Fit text lo hi [o] := .cons ho (Nat.le_refl _) (.nil (Nat.le_refl _))

theorem mono {lo' hi' : Nat} (h : Fit text lo hi os) (hlo : lo' ≤ lo) (hhi : hi ≤ hi') : Fit text lo' hi' os :=
  ⟨h.spread.mono hlo hhi, h.nested⟩

theorem append (h : Fit text lo mid os) (hm : Fit text mid hi more) : Fit text lo hi (os ++ more) := by
  refine ⟨?_, fun o ho => (List.mem_append.1 ho).elim (h.nested o) (hm.nested o)⟩
  rw [List.map_append]
  exact h.spread.append hm.spread

/-- A node around outlines that fit into its span. -/
theorem node {span : Span} (hs : span.Located text) (h : Fit text span.start span.stop os) :
    (Outline.node span os).Fits text span.start span.stop := by
  refine ⟨.node hs (fun o ho => ?_) ?_ h.nested, Nat.le_refl _, Nat.le_refl _⟩
  · have hr := h.spread.inside o.range (List.mem_map_of_mem ho)
    exact ⟨hr.1, hr.2.2⟩
  · exact List.pairwise_map.1 h.spread.pairwise

/-- A node that starts with one outline and ends with a further span, which holds the other outlines. -/
theorem merge {s : Span} (ho : o.Fits text lo mid) (hs : s.Located text) (hmid : mid ≤ s.start)
    (h : Fit text s.start s.stop os) : (Outline.node (o.span.merge s) (o :: os)).Fits text lo s.stop := by
  obtain ⟨hlocated, hlo, hhi, hself⟩ := ho.own_span rfl
  have hbefore : o.span.stop ≤ s.start := Nat.le_trans hhi hmid
  have hstart : (o.span.merge s).start = o.span.start :=
    Span.merge_start (Nat.le_trans hlocated.le hbefore)
  have hstop : (o.span.merge s).stop = s.stop := Span.merge_stop (Nat.le_trans hbefore hs.le)
  have hnode : (Outline.node (o.span.merge s) (o :: os)).Fits text (o.span.merge s).start (o.span.merge s).stop := by
    refine node (hlocated.merge hs) ?_
    rw [hstart, hstop]
    exact cons hself (Nat.le_refl _) (h.mono hbefore (Nat.le_refl _))
  rw [hstart, hstop] at hnode
  exact hnode.mono hlo (Nat.le_refl _)

/-- A node that covers outlines from the first one to the last one. -/
theorem cover {last : Outline} (h : Fit text lo hi os) (hfirst : os.head? = some o)
    (hlast : os.getLast? = some last) : (Outline.node (o.span.merge last.span) os).Fits text lo hi := by
  have hmem := List.mem_of_head? hfirst
  have hmem' := List.mem_of_getLast? hlast
  have htight := h.spread.tight (by rw [List.head?_map, hfirst]; rfl) (by rw [List.getLast?_map, hlast]; rfl)
  have ho := htight.inside o.range (List.mem_map_of_mem hmem)
  have hl := htight.inside last.range (List.mem_map_of_mem hmem')
  have hstart : (o.span.merge last.span).start = o.span.start := Span.merge_start hl.1
  have hstop : (o.span.merge last.span).stop = last.span.stop := Span.merge_stop ho.2.2
  have hlocated := (h.nested o hmem).located.merge (h.nested last hmem').located
  have hnode := node hlocated (by rw [hstart, hstop]; exact (⟨htight, h.nested⟩ : Fit text _ _ os))
  rw [hstart, hstop] at hnode
  exact hnode.mono (h.spread.inside o.range (List.mem_map_of_mem hmem)).1
    (h.spread.inside last.range (List.mem_map_of_mem hmem')).2.2

end Fit

/-! ## Syntax trees -/

mutual

def Expr.outline : Expr → Outline
  | .bool _ s | .num _ s | .str _ s | .null s | .ident _ s | .unsupported _ s => .node s []
  | .member object key s => .node s (object.outline :: key.outlines)
  | .call callee args s => .node s (callee.outline :: Expr.outlines args)
  | .binary _ left right s | .logical _ left right s => .node s [left.outline, right.outline]
  | .unary _ arg s | .update _ _ arg s => .node s [arg.outline]
  | .assign _ target value s => .node s [target.outline, value.outline]
  | .ternary condition consequent alternate s =>
    .node s [condition.outline, consequent.outline, alternate.outline]
  | .function fn => fn.outline

def Expr.outlines : List Expr → List Outline
  | [] => []
  | e :: es => e.outline :: Expr.outlines es

def Expr.optionOutlines : Option Expr → List Outline
  | none => []
  | some e => [e.outline]

def MemberKey.outlines : MemberKey → List Outline
  | .fixed _ => []
  | .computed e => [e.outline]

def FunctionDef.outline : FunctionDef → Outline
  | .mk _ _ body _ s => .node s [body.outline]

def Declarator.outline : Declarator → Outline
  | .mk _ init s => .node s (Expr.optionOutlines init)

def Declarator.outlines : List Declarator → List Outline
  | [] => []
  | d :: ds => d.outline :: Declarator.outlines ds

def ForInit.outline : ForInit → Outline
  | .declare _ decls s => .node s (Declarator.outlines decls)
  | .expr e => e.outline

def ForInit.optionOutlines : Option ForInit → List Outline
  | none => []
  | some init => [init.outline]

def Stmt.outline : Stmt → Outline
  | .block body s => .node s (Stmt.outlines body)
  | .declare _ decls s => .node s (Declarator.outlines decls)
  | .function fn => fn.outline
  | .expr e s => .node s [e.outline]
  | .ifElse test thenS elseS s => .node s (test.outline :: thenS.outline :: Stmt.optionOutlines elseS)
  | .for init test update body s => .node s (ForInit.optionOutlines init ++
      (Expr.optionOutlines test ++ (Expr.optionOutlines update ++ [body.outline])))
  | .ret value s => .node s (Expr.optionOutlines value)
  | .empty s | .unsupported _ s => .node s []

def Stmt.outlines : List Stmt → List Outline
  | [] => []
  | s :: ss => s.outline :: Stmt.outlines ss

def Stmt.optionOutlines : Option Stmt → List Outline
  | none => []
  | some s => [s.outline]

end

theorem Stmt.outlines_eq_map (ss : List Stmt) : Stmt.outlines ss = ss.map Stmt.outline := by
  induction ss with
  | nil => rfl
  | cons s ss ih => rw [outlines, ih, List.map_cons]

def Program.outline (p : Program) : Outline := .node p.span [p.body.outline]

theorem FunctionDef.outline_span (fn : FunctionDef) : fn.outline.span = fn.span := by cases fn; rfl

@[simp] theorem Expr.outline_span (e : Expr) : e.outline.span = e.span := by
  cases e with
  | function fn => exact fn.outline_span
  | _ => rfl

@[simp] theorem Stmt.outline_span (s : Stmt) : s.outline.span = s.span := by
  cases s with
  | function fn => exact fn.outline_span
  | _ => rfl

end Stepwise

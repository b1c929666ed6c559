import Stepwise.Proofs.Grammar.Relayout

/-!
# Tokens do not see the layout behind them

Where two texts that differ in layout stand level, every token of the grammar is found in both or in neither, with the
same lexeme and with texts behind it that again differ in layout only (`Rule.scan_steady`). The reason is that no token
goes on with a character at which layout starts: a word or a number ends before it, an operator holds a slash at its
start only, and a string literal was taken over as a whole.
-/

namespace Stepwise

open Layout (isMark)

/-! ## Fixed texts -/

/-- Either both texts go on with `w`, or neither does. -/
def MeetAll (w cs ds : List Char) : Prop :=
  (∃ cs' ds', w.isPrefixOf? cs = some cs' ∧ w.isPrefixOf? ds = some ds' ∧ Relaid cs' ds') ∨
    w.isPrefixOf? cs = none ∧ w.isPrefixOf? ds = none

theorem isPrefixOf?_eq_none {x : Char} {w cs : List Char} (h : cs.head? ≠ some x) : (x :: w).isPrefixOf? cs = none := by
  cases cs with
  | nil => rfl
  | cons c cs =>
    have hne : x ≠ c := fun heq => h (by rw [heq]; rfl)
    simp [List.isPrefixOf?, hne]

theorem MeetAll.cons {x : Char} {w cs ds : List Char} (h : Meet x cs ds)
    (hw : ∀ cs' ds', Relaid cs' ds' → MeetAll w cs' ds') : MeetAll (x :: w) cs ds := by
  rcases h with ⟨cs', ds', rfl, rfl, hrest⟩ | ⟨hc, hd⟩
  · simpa only [MeetAll, List.isPrefixOf?, beq_self_eq_true, if_true] using hw cs' ds' hrest
  · exact .inr ⟨isPrefixOf?_eq_none hc, isPrefixOf?_eq_none hd⟩

theorem Relaid.meetAll {w cs ds : List Char} (hw : w.all (! isMark ·) = true) (h : Relaid cs ds) : MeetAll w cs ds := by
  induction w generalizing cs ds with
  | nil => exact .inl ⟨cs, ds, rfl, rfl, h⟩
  | cons x w ih =>
    simp only [List.all_cons, Bool.and_eq_true, Bool.not_eq_true'] at hw
    exact .cons (h.meet hw.1) fun _ _ => ih hw.2

/-- Whether a fixed text meets layout only behind it: only its first character may be a slash. -/
def isSolid (w : List Char) : Bool := w.all (fun c => c ≠ '"' && c ≠ '\'') && w.tail.all (! isMark ·)

theorem Level.meetAll {w cs ds : List Char} (hw : isSolid w = true) (h : Level cs ds) : MeetAll w cs ds := by
  cases w with
  | nil => exact .inl ⟨cs, ds, rfl, rfl, h.relaid⟩
  | cons x w =>
    simp only [isSolid, List.all_cons, List.tail_cons, Bool.and_eq_true, decide_eq_true_eq] at hw
    exact .cons (h.meet hw.1.1.1 hw.1.1.2) fun _ _ => Relaid.meetAll hw.2

/-! ## Scanners -/

/-- Both scans fail, or both find the same lexeme before texts that differ in layout only. -/
inductive Rescan : Option (List Char × List Char) → Option (List Char × List Char) → Prop where
  | none : Rescan none none
  | some {l cs ds : List Char} : Relaid cs ds → Rescan (some (l, cs)) (some (l, ds))

theorem Rescan.refl (found : Option (List Char × List Char)) : Rescan found found := by
  cases found with
  | none => exact .none
  | some found => exact .some (.same found.2)

namespace Scanner

/-- The scanner does not see the layout behind its lexeme. -/
def Steady (scan : Scanner) : Prop := ∀ cs ds, Level cs ds → Rescan (scan cs) (scan ds)

theorem Steady.orElse {a b : Scanner} (ha : a.Steady) (hb : b.Steady) : (orElse a b).Steady := by
  intro cs ds h
  have hfirst := ha cs ds h
  unfold Scanner.orElse
  generalize a cs = x at hfirst ⊢
  generalize a ds = y at hfirst ⊢
  cases hfirst with
  | none => exact hb cs ds h
  | some hrest => exact .some hrest

theorem Steady.firstOf {scanners : List Scanner} (h : ∀ s ∈ scanners, s.Steady) : (firstOf scanners).Steady := by
  induction scanners with
  | nil => exact fun _ _ _ => .none
  | cons s scanners ih =>
    exact .orElse (h s List.mem_cons_self) (ih fun t ht => h t (List.mem_cons_of_mem s ht))

theorem symbol_eq (s : String) (notBefore cs : List Char) : symbol s notBefore cs =
    (s.toList.isPrefixOf? cs).bind fun rest =>
      if rest.head?.any (notBefore.contains ·) then none else some (s.toList, rest) := by
  unfold symbol
  cases s.toList.isPrefixOf? cs with
  | none => rfl
  | some rest =>
    cases rest with
    | nil => rfl
    | cons c rest => simp

/-- The characters that may not follow a symbol start no layout, so exchanging layout neither forbids nor frees it. -/
theorem steady_symbol {s : String} {notBefore : List Char} (hs : isSolid s.toList = true)
    (hn : notBefore.all (! isMark ·) = true) : (symbol s notBefore).Steady := by
  intro cs ds h
  have hp : ∀ c, isMark c = true → notBefore.contains c = false := by
    intro c hc
    by_contra hmem
    have hfree := List.all_eq_true.1 hn c (by simpa using hmem)
    simp [hc] at hfree
  rw [symbol_eq, symbol_eq]
  rcases h.meetAll hs with ⟨cs', ds', hcs, hds, hrest⟩ | ⟨hcs, hds⟩
  · rw [hcs, hds, Option.bind_some, Option.bind_some]
    rcases hrest.meet_any hp with ⟨x, cs'', ds'', hx, rfl, rfl, -⟩ | ⟨hc, hd⟩
    · simp only [List.head?_cons, Option.any_some, hx, if_true]
      exact .none
    · simp only [hc, hd, Bool.false_eq_true, if_false]
      exact .some hrest
  · rw [hcs, hds]
    exact .none

theorem steady_plain {symbols : List String} (hs : symbols.all (isSolid ·.toList) = true) : (plain symbols).Steady := by
  refine .firstOf fun scan hscan => ?_
  obtain ⟨s, hmem, rfl⟩ := List.mem_map.1 hscan
  exact steady_symbol (List.all_eq_true.1 hs s hmem) rfl

/-! ## Words -/

theorem isMark_cases {c : Char} (h : isMark c = true) :
    c = ' ' ∨ c = '\t' ∨ c = '\r' ∨ c = '\n' ∨ c = '/' ∨ c = '"' ∨ c = '\'' := by
  simpa [isMark, Layout.isBlank, or_assoc] using h

theorem isWordChar_of_isMark (c : Char) (h : isMark c = true) : isWordChar c = false := by
  rcases isMark_cases h with rfl | rfl | rfl | rfl | rfl | rfl | rfl <;> decide

theorem isWordStart_of_isMark (c : Char) (h : isMark c = true) : isWordStart c = false := by
  rcases isMark_cases h with rfl | rfl | rfl | rfl | rfl | rfl | rfl <;> decide

theorem isDigit_of_isMark (c : Char) (h : isMark c = true) : c.isDigit = false := by
  rcases isMark_cases h with rfl | rfl | rfl | rfl | rfl | rfl | rfl <;> decide

theorem word_relaid {cs ds : List Char} (h : Relaid cs ds) :
    ∃ w cs' ds', word cs = (w, cs') ∧ word ds = (w, ds') ∧ Relaid cs' ds' := by
  obtain ⟨htake, hdrop⟩ := h.span isWordChar_of_isMark
  exact ⟨_, _, _, rfl, by rw [word, ← htake], hdrop⟩

theorem steady_keyword (words : List String) : (keyword words).Steady := by
  intro cs ds h
  obtain ⟨w, cs', ds', hcs, hds, hrest⟩ := word_relaid h.relaid
  simp only [keyword, hcs, hds]
  split
  · exact .some hrest
  · exact .none

theorem anyWord_eq (cs : List Char) : anyWord cs = if cs.head?.any isWordStart then some (word cs) else none := by
  cases cs <;> rfl

theorem steady_anyWord : anyWord.Steady := by
  intro cs ds h
  rw [anyWord_eq, anyWord_eq]
  rcases h.relaid.meet_any isWordStart_of_isMark with ⟨x, cs', ds', hx, rfl, rfl, -⟩ | ⟨hc, hd⟩
  · simp only [List.head?_cons, Option.any_some, hx, if_true]
    obtain ⟨w, cs', ds', hcs, hds, hrest⟩ := word_relaid h.relaid
    rw [hcs, hds]
    exact .some hrest
  · simp only [hc, hd, Bool.false_eq_true, if_false]
    exact .none

theorem steady_identifier : identifier.Steady := by
  intro cs ds h
  have hkeyword := steady_keyword reserved cs ds h
  unfold identifier
  generalize keyword reserved cs = x at hkeyword ⊢
  generalize keyword reserved ds = y at hkeyword ⊢
  cases hkeyword with
  | none => exact steady_anyWord cs ds h
  | some => exact .none

/-! ## Numbers -/

theorem digits_relaid {cs ds : List Char} (h : Relaid cs ds) :
    ∃ l cs' ds', digits cs = (l, cs') ∧ digits ds = (l, ds') ∧ Relaid cs' ds' := by
  obtain ⟨htake, hdrop⟩ := h.span isDigit_of_isMark
  exact ⟨_, _, _, rfl, by rw [digits, ← htake], hdrop⟩

theorem exponentBehind_relaid {cs ds mark : List Char} (h : Relaid cs ds) (hall : Relaid (mark ++ cs) (mark ++ ds)) :
    ∃ l cs' ds', exponentBehind mark cs = (l, cs') ∧ exponentBehind mark ds = (l, ds') ∧ Relaid cs' ds' := by
  obtain ⟨l, cs', ds', hcs, hds, hrest⟩ := digits_relaid h
  simp only [exponentBehind, hcs, hds]
  by_cases hl : l = []
  · exact ⟨[], _, _, if_pos hl, if_pos hl, hall⟩
  · exact ⟨mark ++ l, _, _, if_neg hl, if_neg hl, hrest⟩

theorem exponent_relaid {cs ds : List Char} (h : Relaid cs ds) :
    ∃ l cs' ds', exponent cs = (l, cs') ∧ exponent ds = (l, ds') ∧ Relaid cs' ds' := by
  have hmark : ∀ c, isMark c = true → isExponentMark c = false := by
    intro c hc
    rcases isMark_cases hc with rfl | rfl | rfl | rfl | rfl | rfl | rfl <;> rfl
  have hsign : ∀ c, isMark c = true → isSign c = false := by
    intro c hc
    rcases isMark_cases hc with rfl | rfl | rfl | rfl | rfl | rfl | rfl <;> rfl
  rcases h.meet_any hmark with ⟨e, cs', ds', he, rfl, rfl, h'⟩ | ⟨hc, hd⟩
  · rcases h'.meet_any hsign with ⟨s, cs'', ds'', hs, rfl, rfl, h''⟩ | ⟨hc, hd⟩
    · rw [exponent_signed he hs, exponent_signed he hs]
      exact exponentBehind_relaid h'' h
    · rw [exponent_unsigned he hc, exponent_unsigned he hd]
      exact exponentBehind_relaid h' h
  · exact ⟨[], cs, ds, exponent_of_ne hc, exponent_of_ne hd, h⟩

theorem rescan_exponent {cs ds : List Char} (h : Relaid cs ds) (l : List Char) :
    Rescan (some (l ++ (exponent cs).1, (exponent cs).2)) (some (l ++ (exponent ds).1, (exponent ds).2)) := by
  obtain ⟨e, cs', ds', hcs, hds, hrest⟩ := exponent_relaid h
  rw [hcs, hds]
  exact .some hrest

theorem steady_number : number.Steady := by
  intro cs ds h
  obtain ⟨whole, cs', ds', hcs, hds, hrest⟩ := digits_relaid h.relaid
  have hpoint : Meet '.' cs' ds' := hrest.meet rfl
  rcases hpoint with ⟨cs'', ds'', rfl, rfl, hmore⟩ | ⟨hc, hd⟩
  · obtain ⟨part, _, _, hcs', hds', hend⟩ := digits_relaid hmore
    rw [number_of_point hcs, number_of_point hds, hcs', hds']
    split
    · exact .none
    · exact rescan_exponent hend _
  · rw [number_of_no_point hcs hc, number_of_no_point hds hd]
    split
    · exact .none
    · exact rescan_exponent hrest _

/-! ## Strings -/

/-- The body of a string literal ends at the first quote, whatever follows. -/
theorem stringBody_congr {quote : Char} (hq : quote ≠ '\\') {cs body rest : List Char}
    (h : stringBody quote cs = (body, quote :: rest)) (rest' : List Char) :
    stringBody quote (body ++ quote :: rest') = (body, quote :: rest') := by
  fun_induction stringBody quote cs generalizing body with
  | case1 => cases h
  | case2 => cases h; exact absurd rfl hq
  | case3 c cs body' rest'' hrec ih =>
    cases h
    simp only [List.cons_append, stringBody, ih hrec]
  | case4 c cs hne hne' hc =>
    cases h
    have hstop : stringBody quote (quote :: rest') = ([], quote :: rest') := by simp [stringBody, hq]
    exact hstop
  | case5 c cs hne hne' hc body' rest'' hrec ih =>
    cases h
    have hescape : c ≠ '\\' := by
      rintro rfl
      cases cs with
      | nil => exact hne rfl rfl
      | cons => exact hne' _ _ rfl rfl
    simp [stringBody, hescape, hc, ih hrec]

/-- A string literal ends at its closing quote, whatever follows. -/
theorem string_congr {l cs : List Char} (h : string (l ++ cs) = some (l, cs)) (ds : List Char) :
    string (l ++ ds) = some (l, ds) := by
  obtain ⟨quote, l, rfl, hquote⟩ := string_head h
  simp only [List.cons_append, string, if_pos hquote] at h ⊢
  have hq : quote ≠ '\\' := by rcases hquote with rfl | rfl <;> decide
  split at h
  · next body c rest hbody =>
    split at h
    · next hc =>
      subst hc
      cases h
      have hsame := stringBody_congr hq hbody ds
      simp [hsame]
    · cases h
  · cases h

theorem steady_string : string.Steady := by
  intro cs ds h
  cases h with
  | same => exact .refl _
  | char _ hd hs => rw [string_eq_none hd hs, string_eq_none hd hs]; exact .none
  | @string l cs ds hl h => rw [hl, string_congr hl ds]; exact .some h

theorem steady_endOfInput : endOfInput.Steady := by
  intro cs ds h
  cases h with
  | same => exact .refl _
  | char => exact .none
  | string hl =>
    obtain ⟨c, l, rfl, -⟩ := string_head hl
    exact .none

end Scanner

/-- No token of the grammar sees the layout behind it. -/
theorem Rule.scan_steady {r : Rule} {scan : Scanner} (h : r.definition = .token scan) : scan.Steady := by
  cases r <;> cases h
  case endOfInput => exact Scanner.steady_endOfInput
  case identifier => exact Scanner.steady_identifier
  case propertyName => exact Scanner.steady_anyWord
  case number => exact Scanner.steady_number
  case string => exact Scanner.steady_string
  case assignOp => exact .orElse (Scanner.steady_plain (by decide)) (Scanner.steady_symbol (by decide) (by decide))
  case opEquality | opComparison | opUpdate => exact Scanner.steady_plain (by decide)
  case opOr | opAnd => exact Scanner.steady_symbol (by decide) (by decide)
  case opAdditive =>
    exact .orElse (Scanner.steady_symbol (by decide) (by decide)) (Scanner.steady_symbol (by decide) (by decide))
  case opMultiplicative =>
    refine .firstOf fun s hs => ?_
    simp only [List.mem_cons, List.not_mem_nil, or_false] at hs
    rcases hs with rfl | rfl | rfl <;> exact Scanner.steady_symbol (by decide) (by decide)
  case opUnary =>
    refine .firstOf fun s hs => ?_
    simp only [List.mem_cons, List.not_mem_nil, or_false] at hs
    rcases hs with rfl | rfl | rfl | rfl
    · exact Scanner.steady_symbol (by decide) (by decide)
    · exact Scanner.steady_symbol (by decide) (by decide)
    · exact Scanner.steady_symbol (by decide) (by decide)
    · exact Scanner.steady_keyword _
  all_goals exact Scanner.steady_keyword _

end Stepwise

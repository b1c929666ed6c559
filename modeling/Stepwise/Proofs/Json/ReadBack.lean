import Mathlib.Data.List.Basic
import Mathlib.Data.List.TakeWhile
import Stepwise.Json.Printer
import Stepwise.Json.Reader
import Stepwise.Proofs.Number.Seventeen

/-!
# Reading what was written

The compact form of a JSON value is read back as that value, provided that integers fit in 64 bits and that the text of
each double is read as that double (`Json.Exact`). The only other limit is that of the reader: arrays and objects may not
stand too deep inside each other.

**`Json.parse?_compact`**: the compact form of a value is read as the value if its nesting is at most `127`, and it is not
read otherwise.

The text of a value is read the same whatever follows it, if that does not continue a number (`Text.Ends`). `Text.Reads`
says so, and has one lemma for each kind of value.
-/

namespace Stepwise

namespace Json

mutual

/-- `A` holds of every atom inside a value, and `O` of the members of every object. -/
def Every (A : Json → Prop) (O : List (String × Json) → Prop) : Json → Prop
  | arr items => EveryItem A O items
  | obj members => O members ∧ EveryMember A O members
  | j => A j

def EveryItem (A : Json → Prop) (O : List (String × Json) → Prop) : List Json → Prop
  | [] => True
  | j :: js => j.Every A O ∧ EveryItem A O js

def EveryMember (A : Json → Prop) (O : List (String × Json) → Prop) : List (String × Json) → Prop
  | [] => True
  | (_, j) :: ms => j.Every A O ∧ EveryMember A O ms

end

mutual

/-- How many arrays and objects stand inside each other. -/
def nesting : Json → Nat
  | arr items => itemsNesting items + 1
  | obj members => membersNesting members + 1
  | _ => 0

def itemsNesting : List Json → Nat
  | [] => 0
  | j :: js => max j.nesting (itemsNesting js)

def membersNesting : List (String × Json) → Nat
  | [] => 0
  | (_, j) :: ms => max j.nesting (membersNesting ms)

end

/-- An atom whose text is read as that atom. Of integers and doubles not all are. -/
def Exact : Json → Prop
  | int n => -(signedBound : Int) ≤ n ∧ n < wordSize
  | float x => parse? (float x).compact = some (float x)
  | _ => True

namespace Text

/-! ## What follows a value -/

/-- A value ends before this: at the end of the text, or before a comma or a closing bracket. -/
def Ends (rest : List Char) : Prop := ∀ c ∈ rest.head?, c = ',' ∨ c = ']' ∨ c = '\x7d'

theorem ends_nil : Ends [] := by simp [Ends]

theorem ends_comma (cs : List Char) : Ends (',' :: cs) := by simp [Ends]

theorem ends_bracket (cs : List Char) : Ends (']' :: cs) := by simp [Ends]

theorem ends_brace (cs : List Char) : Ends ('\x7d' :: cs) := by simp [Ends]

/-- A test that fails for commas and closing brackets takes no characters from what follows. -/
theorem Ends.takeWhile {rest : List Char} (h : Ends rest) {p : Char → Bool} (hc : p ',' = false) (hb : p ']' = false)
    (hd : p '\x7d' = false) : rest.takeWhile p = [] := by
  cases rest with
  | nil => rfl
  | cons c cs =>
    have hp : p c = false := by rcases h c rfl with rfl | rfl | rfl <;> assumption
    rw [List.takeWhile_cons, hp]
    rfl

theorem Ends.dropWhile {rest : List Char} (h : Ends rest) {p : Char → Bool} (hc : p ',' = false) (hb : p ']' = false)
    (hd : p '\x7d' = false) : rest.dropWhile p = rest := by
  cases rest with
  | nil => rfl
  | cons c cs =>
    have hp : p c = false := by rcases h c rfl with rfl | rfl | rfl <;> assumption
    rw [List.dropWhile_cons, hp]
    rfl

theorem Ends.skip {rest : List Char} (h : Ends rest) : skip rest = rest := h.dropWhile rfl rfl rfl

theorem skip_skip (cs : List Char) : skip (skip cs) = skip cs := by
  unfold skip
  induction cs with
  | nil => rfl
  | cons c cs ih =>
    by_cases h : isBlank c
    · rw [List.dropWhile_cons_of_pos h]
      exact ih
    · rw [List.dropWhile_cons_of_neg h, List.dropWhile_cons_of_neg h]

/-- Layout before what follows. -/
theorem skip_append_of_blank {r rest : List Char} (hr : skip r = []) (h : Ends rest) : skip (r ++ rest) = rest := by
  unfold skip at hr ⊢
  rw [List.dropWhile_append, hr]
  exact h.skip

theorem skip_append {cs rest : List Char} (h : skip cs ≠ []) : skip (cs ++ rest) = skip cs ++ rest := by
  unfold skip at h ⊢
  rw [List.dropWhile_append, if_neg (by simpa using h)]

/-! ## Numbers -/

section Numbers

variable {cs r rest ds : List Char}

theorem readDigits_append (h : readDigits cs = some (ds, r)) (hends : Ends rest) :
    readDigits (cs ++ rest) = some (ds, r ++ rest) := by
  have htake : (cs ++ rest).takeWhile Char.isDigit = cs.takeWhile Char.isDigit := by
    rw [List.takeWhile_append, hends.takeWhile rfl rfl rfl, List.append_nil]
    split
    · rename_i hall
      exact ((List.takeWhile_prefix _).eq_of_length hall).symm
    · rfl
  have hdrop : (cs ++ rest).dropWhile Char.isDigit = cs.dropWhile Char.isDigit ++ rest := by
    rw [List.dropWhile_append]
    split
    · rename_i hall
      rw [List.isEmpty_iff.1 hall, hends.dropWhile rfl rfl rfl, List.nil_append]
    · rfl
  unfold readDigits at h ⊢
  rw [htake, hdrop]
  cases ht : cs.takeWhile Char.isDigit with
  | nil => rw [ht] at h; cases h
  | cons c ds' => rw [ht] at h; cases h; rfl

/-- The digits before the point. -/
def readWhole : List Char → Option (List Char × List Char)
  | '0' :: c :: cs => if c.isDigit then none else some (['0'], c :: cs)
  | cs => readDigits cs

def readSign : List Char → Bool × List Char
  | '-' :: cs => (true, cs)
  | cs => (false, cs)

theorem readNumber_eq (cs : List Char) : readNumber cs = (readWhole (readSign cs).2).bind fun whole =>
    (readPart whole.2).bind fun part => (readPower part.2).bind fun power =>
      some (⟨(readSign cs).1, whole.1, part.1, power.1⟩, power.2) := by
  unfold readNumber
  simp only [Option.bind_eq_bind]
  split
  · rename_i c ds hsign
    have hzero : (readSign cs).2 = '0' :: c :: ds := hsign
    rw [hzero, readWhole]
    split <;> rfl
  · rename_i hother
    have hwhole : readWhole (readSign cs).2 = readDigits (readSign cs).2 := by
      unfold readWhole
      split
      · rename_i c ds hzero
        exact absurd hzero (hother c ds)
      · rfl
    rw [hwhole]
    rfl

theorem readSign_append (hne : cs ≠ []) : readSign (cs ++ rest) = ((readSign cs).1, (readSign cs).2 ++ rest) := by
  cases cs with
  | nil => exact absurd rfl hne
  | cons c cs =>
    by_cases h : c = '-'
    · subst h
      rfl
    · simp [readSign, h]

theorem readWhole_append (h : readWhole cs = some (ds, r)) (hends : Ends rest) :
    readWhole (cs ++ rest) = some (ds, r ++ rest) := by
  unfold readWhole at h
  split at h
  · rename_i c cs'
    rw [List.cons_append, List.cons_append, readWhole]
    split at h
    · cases h
    · rename_i hc
      cases h
      rw [if_neg hc]
      rfl
  · rename_i hother
    have hdigits := readDigits_append h hends
    unfold readWhole
    split
    · rename_i c cs' hzero
      -- A single zero before what follows, which is no digit.
      obtain rfl | ⟨rfl, hrest⟩ : cs = [] ∨ cs = ['0'] ∧ rest = c :: cs' := by
        rcases cs with _ | ⟨a, _ | ⟨b, cs⟩⟩
        · exact .inl rfl
        · simp only [List.cons_append, List.nil_append, List.cons.injEq] at hzero
          exact .inr ⟨by rw [hzero.1], hzero.2⟩
        · simp only [List.cons_append, List.cons.injEq] at hzero
          exact absurd (by rw [hzero.1]) (hother b cs)
      · cases h
      · cases h
        have hc : c.isDigit = false := by
          rcases hends c (by rw [hrest]; rfl) with rfl | rfl | rfl <;> rfl
        rw [hrest, hc]
        rfl
    · exact hdigits

theorem readPart_append {part : Option (List Char)} (h : readPart cs = some (part, r)) (hends : Ends rest) :
    readPart (cs ++ rest) = some (part, r ++ rest) := by
  unfold readPart at h
  split at h
  · rename_i cs'
    obtain ⟨⟨ds, r'⟩, hds, h⟩ := Option.bind_eq_some_iff.1 h
    cases h
    rw [List.cons_append, readPart, readDigits_append hds hends]
    rfl
  · rename_i hother
    cases h
    unfold readPart
    split
    · rename_i cs' hpoint
      cases cs with
      | nil => rcases hends '.' (by rw [List.nil_append] at hpoint; rw [hpoint]; rfl) with h | h | h <;> cases h
      | cons c cs =>
        rw [List.cons_append, List.cons.injEq] at hpoint
        exact absurd (by rw [hpoint.1]) (hother cs)
    · rfl

def readPowerSign : List Char → Bool × List Char
  | '-' :: cs => (true, cs)
  | '+' :: cs => (false, cs)
  | cs => (false, cs)

theorem readPower_cons (e : Char) (cs : List Char) : readPower (e :: cs) =
    if e = 'e' ∨ e = 'E' then
      (readDigits (readPowerSign cs).2).bind fun d =>
        some (some (if (readPowerSign cs).1 then -(natOfDigits 10 d.1 : Int) else natOfDigits 10 d.1), d.2)
    else some (none, e :: cs) := by
  by_cases he : e = 'e' ∨ e = 'E'
  · rw [if_pos he]
    unfold readPower readPowerSign
    dsimp only
    rw [if_pos he]
    rfl
  · rw [if_neg he]
    unfold readPower
    dsimp only
    rw [if_neg he]

theorem readPowerSign_append (hne : cs ≠ []) :
    readPowerSign (cs ++ rest) = ((readPowerSign cs).1, (readPowerSign cs).2 ++ rest) := by
  cases cs with
  | nil => exact absurd rfl hne
  | cons c cs =>
    by_cases hminus : c = '-'
    · subst hminus
      rfl
    · by_cases hplus : c = '+'
      · subst hplus
        rfl
      · simp [readPowerSign, hminus, hplus]

theorem readPower_append {power : Option Int} (h : readPower cs = some (power, r)) (hends : Ends rest) :
    readPower (cs ++ rest) = some (power, r ++ rest) := by
  cases cs with
  | nil =>
    cases h
    cases rest with
    | nil => rfl
    | cons c rest =>
      have hc : ¬ (c = 'e' ∨ c = 'E') := by rcases hends c rfl with rfl | rfl | rfl <;> decide
      rw [List.nil_append, readPower_cons, if_neg hc]
  | cons e cs =>
    rw [readPower_cons] at h
    rw [List.cons_append, readPower_cons]
    split at h
    · rename_i he
      obtain ⟨⟨ds, r'⟩, hds, h⟩ := Option.bind_eq_some_iff.1 h
      cases h
      have hne : cs ≠ [] := by
        rintro rfl
        cases hds
      rw [if_pos he, readPowerSign_append hne]
      dsimp only
      rw [readDigits_append hds hends]
      rfl
    · rename_i he
      cases h
      rw [if_neg he]
      rfl

theorem readNumber_append {n : Numeral} (h : readNumber cs = some (n, r)) (hends : Ends rest) :
    readNumber (cs ++ rest) = some (n, r ++ rest) := by
  have hne : cs ≠ [] := by
    rintro rfl
    cases h
  rw [readNumber_eq] at h ⊢
  obtain ⟨⟨whole, r₁⟩, hwhole, h⟩ := Option.bind_eq_some_iff.1 h
  obtain ⟨⟨part, r₂⟩, hpart, h⟩ := Option.bind_eq_some_iff.1 h
  obtain ⟨⟨power, r₃⟩, hpower, h⟩ := Option.bind_eq_some_iff.1 h
  cases h
  rw [readSign_append hne]
  dsimp only
  rw [readWhole_append hwhole hends, Option.bind_some, readPart_append hpart hends, Option.bind_some,
    readPower_append hpower hends, Option.bind_some]

/-! A number is read where nothing else is. -/

theorem readNumber_of_readValue {fuel : Nat} {n : Numeral} (h : readValue fuel cs = some (.num n, r)) :
    readNumber (skip cs) = some (n, r) := by
  cases fuel with
  | zero => cases h
  | succ fuel =>
    unfold readValue at h
    split at h
    · cases h
    · cases h
    · cases h
    · obtain ⟨_, -, h⟩ := Option.map_eq_some_iff.1 h
      cases h
    · split at h
      · cases h
      · obtain ⟨_, -, h⟩ := Option.map_eq_some_iff.1 h
        cases h
    · split at h
      · cases h
      · obtain ⟨_, -, h⟩ := Option.map_eq_some_iff.1 h
        cases h
    · obtain ⟨⟨m, r'⟩, hm, h⟩ := Option.map_eq_some_iff.1 h
      cases h
      exact hm

/-- A number does not start with layout. -/
theorem skip_of_readNumber {n : Numeral} (h : readNumber cs = some (n, r)) : skip cs = cs := by
  cases cs with
  | nil => rfl
  | cons c cs =>
    refine List.dropWhile_cons_of_neg fun hblank => ?_
    simp only [isBlank, Bool.or_eq_true, decide_eq_true_eq] at hblank
    rcases hblank with ((rfl | rfl) | rfl) | rfl <;> cases h

theorem readValue_of_readNumber {n : Numeral} (h : readNumber (skip cs) = some (n, r)) (fuel : Nat) :
    readValue (fuel + 1) cs = some (.num n, r) := by
  unfold readValue
  split
  all_goals try (rename_i heq; rw [heq] at h; cases h)
  rw [h]
  rfl

end Numbers

/-! ## Integers -/

section Integers

/-- A positive number does not start with a zero. -/
theorem head?_toDigits {n : Nat} (hn : 0 < n) : (Nat.toDigits 10 n).head? ≠ some '0' := by
  induction n using Nat.strongRecOn with
  | ind n ih =>
    by_cases hlt : n < 10
    · rw [Nat.toDigits_of_lt_base hlt]
      have hall : ∀ m < 10, 0 < m → [m.digitChar].head? ≠ some '0' := by decide
      exact hall n hlt hn
    · have hhead := ih (n / 10) (by omega) (by omega)
      rw [Nat.toDigits_of_base_le (by decide) (by omega)]
      cases h : Nat.toDigits 10 (n / 10) with
      | nil => exact absurd h Nat.toDigits_ne_nil
      | cons c cs => rw [h] at hhead; exact hhead

theorem readWhole_toDigits (n : Nat) : readWhole (Nat.toDigits 10 n) = some (Nat.toDigits 10 n, []) := by
  have hall : ∀ c ∈ Nat.toDigits 10 n, c.isDigit = true := fun c hc =>
    Nat.isDigit_of_mem_toDigits (by decide) (by decide) hc
  have hdigits : readDigits (Nat.toDigits 10 n) = some (Nat.toDigits 10 n, []) := by
    unfold readDigits
    rw [List.takeWhile_eq_self_iff.2 hall, List.dropWhile_eq_nil_iff.2 hall]
    cases h : Nat.toDigits 10 n with
    | nil => exact absurd h Nat.toDigits_ne_nil
    | cons c cs => rfl
  unfold readWhole
  split
  · rename_i c cs heq
    rcases Nat.eq_zero_or_pos n with rfl | hn
    · cases heq
    · exact absurd (by rw [heq]; rfl) (head?_toDigits hn)
  · exact hdigits

theorem readSign_toDigits (n : Nat) : readSign (Nat.toDigits 10 n) = (false, Nat.toDigits 10 n) := by
  unfold readSign
  split
  · rename_i cs heq
    have hminus : '-' ∈ Nat.toDigits 10 n := by rw [heq]; exact List.mem_cons_self
    have hdigit := Nat.isDigit_of_mem_toDigits (by decide) (by decide) hminus
    cases hdigit
  · rfl

/-- The text of an integer is a numeral, and the integer its value. -/
theorem readNumber_int {k : Int} (h : -(signedBound : Int) ≤ k ∧ k < wordSize) :
    ∃ n, readNumber (toString k).toList = some (n, []) ∧ number? n = some (.int k) := by
  cases k with
  | ofNat m =>
    have htext : (toString (Int.ofNat m)).toList = Nat.toDigits 10 m := String.toList_ofList
    refine ⟨⟨false, Nat.toDigits 10 m, none, none⟩, ?_, ?_⟩
    · rw [htext, readNumber_eq, readSign_toDigits, readWhole_toDigits]
      rfl
    · unfold number?
      simp only [natOfDigits_toDigits]
      rw [if_pos (by simpa using h)]
      rfl
  | negSucc m =>
    have htext : (toString (Int.negSucc m)).toList = '-' :: Nat.toDigits 10 (m + 1) := by
      show ("-" ++ String.ofList (Nat.toDigits 10 (m + 1))).toList = _
      simp
    refine ⟨⟨true, Nat.toDigits 10 (m + 1), none, none⟩, ?_, ?_⟩
    · have hsign : readSign ('-' :: Nat.toDigits 10 (m + 1)) = (true, Nat.toDigits 10 (m + 1)) := rfl
      rw [htext, readNumber_eq, hsign, readWhole_toDigits]
      rfl
    · unfold number?
      simp only [natOfDigits_toDigits]
      rw [Int.negSucc_eq] at h ⊢
      rw [if_pos ⟨⟨trivial, trivial⟩, by simpa using h.1, by simpa using h.2, by simp⟩]
      rfl

end Integers

/-! ## Strings -/

/-- The piece of a string that a character is written as. -/
def piece (c : Char) : Piece :=
  if c < ' ' ∧ c ∉ ['\n', '\r', '\t', '\x08', '\x0c'] then .unit c.toNat else .char c

theorem chars?_piece (c : Char) (ps : List Piece) : chars? (piece c :: ps) = (chars? ps).map (c :: ·) := by
  unfold piece
  split
  · rename_i h
    have hlt : c.toNat < 32 := h.1
    rw [chars?.eq_def]
    dsimp only
    rw [if_pos (.inl (by omega)), Char.ofNat_toNat]
  · rfl

theorem hex?_hexPair : ∀ n < 32, hex? ('0' :: '0' :: hexPair n) = some n := by decide

theorem readString_escape {e c : Char} (h : escape? e = some c) (cs : List Char) :
    readString ('\\' :: e :: cs) = (readString cs).map fun r => (.char c :: r.1, r.2) := by
  have hu : e ≠ 'u' := by
    rintro rfl
    cases h
  rw [readString, h]
  · cases readString cs <;> rfl
  · simp [hu]

theorem readString_control {c : Char} (h : c < ' ') (cs : List Char) :
    readString ('\\' :: 'u' :: '0' :: '0' :: hexPair c.toNat ++ cs) =
      (readString cs).map fun r => (.unit c.toNat :: r.1, r.2) := by
  have hhex := hex?_hexPair c.toNat h
  show readString ('\\' :: 'u' :: '0' :: '0' :: (c.toNat / 16).digitChar :: (c.toNat % 16).digitChar :: cs) = _
  rw [readString]
  rw [hexPair] at hhex
  rw [hhex]
  cases readString cs <;> rfl

theorem readString_char {c : Char} (hquote : c ≠ '"') (hslash : c ≠ '\\') (h : ¬ c < ' ') (cs : List Char) :
    readString (c :: cs) = (readString cs).map fun r => (.char c :: r.1, r.2) := by
  rw [readString]
  · simp only [h, ↓reduceIte]
    cases readString cs <;> rfl
  · simp [hquote]
  · simp [hslash]
  · simp [hslash]

theorem readString_escaped (c : Char) (cs : List Char) :
    readString (escaped c ++ cs) = (readString cs).map fun r => (piece c :: r.1, r.2) := by
  unfold escaped
  split
  · exact readString_escape rfl cs
  · exact readString_escape rfl cs
  · exact readString_escape rfl cs
  · exact readString_escape rfl cs
  · exact readString_escape rfl cs
  · exact readString_escape rfl cs
  · exact readString_escape rfl cs
  · rename_i hquote hslash hn hr ht hb hf
    split
    · rename_i hlt
      have hpiece : piece c = .unit c.toNat := by
        rw [piece, if_pos ⟨hlt, by simpa using ⟨hn, hr, ht, hb, hf⟩⟩]
      rw [hpiece]
      exact readString_control hlt cs
    · rename_i hlt
      have hpiece : piece c = .char c := by rw [piece, if_neg fun h => hlt h.1]
      rw [hpiece]
      exact readString_char hquote hslash hlt cs

theorem readString_quoted (s rest : List Char) :
    readString (s.flatMap escaped ++ '"' :: rest) = some (s.map piece, rest) := by
  induction s with
  | nil => rfl
  | cons c s ih => rw [List.flatMap_cons, List.append_assoc, readString_escaped, ih]; rfl

theorem string?_piece (s : String) : string? (s.toList.map piece) = some s := by
  have hchars : ∀ cs : List Char, chars? (cs.map piece) = some cs := by
    intro cs
    induction cs with
    | nil => rfl
    | cons c cs ih => rw [List.map_cons, chars?_piece, ih]; rfl
  rw [string?, hchars, Option.map_some, String.ofList_toList]

/-! ## Values -/

/-- The characters `cs` are read as `t`, whatever follows the value. Layout may be left. -/
def Reads (cs : List Char) (t : Text) : Prop :=
  ∀ (fuel : Nat) (rest : List Char), cs.length ≤ fuel → Ends rest →
    ∃ r, readValue fuel (cs ++ rest) = some (t, r) ∧ skip r = rest

theorem reads_of_eq {c : Char} {cs : List Char} {t : Text}
    (h : ∀ fuel rest, Ends rest → cs.length ≤ fuel → readValue (fuel + 1) (c :: cs ++ rest) = some (t, rest)) :
    Reads (c :: cs) t := by
  intro fuel rest hfuel hends
  obtain ⟨k, rfl⟩ : ∃ k, fuel = k + 1 := ⟨fuel - 1, by simp only [List.length_cons] at hfuel; omega⟩
  exact ⟨rest, h k rest hends (by simpa using hfuel), hends.skip⟩

/-- Characters that are read as a number and layout, with nothing behind them. -/
theorem reads_num {cs r : List Char} {n : Numeral} (h : readNumber (skip cs) = some (n, r)) (hr : skip r = []) :
    Reads cs (.num n) := by
  have hne : skip cs ≠ [] := by
    intro hnil
    rw [hnil] at h
    cases h
  intro fuel rest hfuel hends
  have hcs : cs ≠ [] := by
    rintro rfl
    exact hne rfl
  obtain ⟨k, rfl⟩ : ∃ k, fuel = k + 1 := ⟨fuel - 1, by have := List.length_pos_of_ne_nil hcs; omega⟩
  refine ⟨r ++ rest, readValue_of_readNumber ?_ k, skip_append_of_blank hr hends⟩
  rw [skip_append hne]
  exact readNumber_append h hends

theorem reads_int {k : Int} (h : -(signedBound : Int) ≤ k ∧ k < wordSize) :
    ∃ n, Reads (toString k).toList (.num n) ∧ number? n = some (.int k) := by
  obtain ⟨n, hn, hv⟩ := readNumber_int h
  exact ⟨n, reads_num ((skip_of_readNumber hn).symm ▸ hn) rfl, hv⟩

theorem reads_float {x : Float} (h : parse? (float x).compact = some (float x)) :
    ∃ n, Reads (float x).compact.toList (.num n) ∧ number? n = some (float x) := by
  obtain ⟨t, ht, hv⟩ := Option.bind_eq_some_iff.1 h
  cases t with
  | num n =>
    refine ⟨n, ?_, hv⟩
    unfold Text.read at ht
    dsimp only at ht
    split at ht
    · rename_i t r hread
      split at ht
      · rename_i hr
        cases ht
        exact reads_num (readNumber_of_readValue hread) hr
      · cases ht
    · cases ht
  | null => cases hv
  | bool b => cases hv
  | str ps =>
    obtain ⟨s, -, hv⟩ := Option.map_eq_some_iff.1 hv
    cases hv
  | arr ts =>
    obtain ⟨js, -, hv⟩ := Option.map_eq_some_iff.1 hv
    cases hv
  | obj ms =>
    obtain ⟨js, -, hv⟩ := Option.map_eq_some_iff.1 hv
    cases hv

theorem reads_str (s : String) : Reads (quoted s).toList (.str (s.toList.map piece)) := by
  have htext : (quoted s).toList = '"' :: (s.toList.flatMap escaped ++ ['"']) := by simp [quoted]
  rw [htext]
  refine reads_of_eq fun fuel rest hends hfuel => ?_
  have hstring := readString_quoted s.toList rest
  show (readString (s.toList.flatMap escaped ++ ['"'] ++ rest)).map _ = _
  rw [List.append_assoc, List.singleton_append, hstring]
  rfl

/-! ## Arrays and objects -/

/-- Items that are read one after the other up to the closing bracket. -/
def ReadsItems (cs : List Char) (ts : List Text) : Prop :=
  ∀ (fuel : Nat) (rest : List Char), cs.length < fuel → readItems fuel (cs ++ ']' :: rest) = some (ts, rest)

theorem ReadsItems.last {cs : List Char} {t : Text} (h : Reads cs t) : ReadsItems cs [t] := by
  intro fuel rest hfuel
  obtain ⟨k, rfl⟩ : ∃ k, fuel = k + 1 := ⟨fuel - 1, by omega⟩
  obtain ⟨r, hread, hr⟩ := h k _ (by omega) (ends_bracket rest)
  refine Option.bind_eq_some_iff.2 ⟨(t, r), hread, ?_⟩
  dsimp only
  rw [hr]
  rfl

theorem ReadsItems.cons {cs more : List Char} {t : Text} {ts : List Text} (h : Reads cs t) (hmore : ReadsItems more ts) :
    ReadsItems (cs ++ ',' :: more) (t :: ts) := by
  intro fuel rest hfuel
  rw [List.length_append, List.length_cons] at hfuel
  obtain ⟨k, rfl⟩ : ∃ k, fuel = k + 1 := ⟨fuel - 1, by omega⟩
  obtain ⟨r, hread, hr⟩ := h k _ (by omega) (ends_comma (more ++ ']' :: rest))
  rw [List.append_assoc, List.cons_append]
  refine Option.bind_eq_some_iff.2 ⟨(t, r), hread, ?_⟩
  dsimp only
  rw [hr]
  exact Option.map_eq_some_iff.2 ⟨(ts, rest), hmore k rest (by omega), rfl⟩

/-- Layout before a value makes no difference. -/
theorem readValue_skip (fuel : Nat) (cs : List Char) : readValue (fuel + 1) (skip cs) = readValue (fuel + 1) cs := by
  unfold readValue
  rw [skip_skip]

/-- Layout before the first item makes no difference, and the array is not empty. -/
theorem readItems_skip {fuel : Nat} {cs rest : List Char} {ts : List Text} (h : readItems fuel cs = some (ts, rest)) :
    readItems fuel (skip cs) = some (ts, rest) ∧ ∀ r, skip cs ≠ ']' :: r := by
  obtain ⟨k, rfl⟩ : ∃ k, fuel = k + 2 := by
    rcases fuel with _ | _ | k
    · cases h
    · cases h
    · exact ⟨k, rfl⟩
  obtain ⟨x, hx, hrest⟩ := Option.bind_eq_some_iff.1 h
  constructor
  · exact Option.bind_eq_some_iff.2 ⟨x, (readValue_skip k cs).trans hx, hrest⟩
  · intro r hr
    have hnone : readValue (k + 1) cs = none := by
      rw [← readValue_skip, hr]
      rfl
    cases hnone.symm.trans hx

theorem readValue_bracket {cs : List Char} (h : ∀ r, skip cs ≠ ']' :: r) (fuel : Nat) :
    readValue (fuel + 1) ('[' :: cs) = (readItems fuel (skip cs)).map fun x => (.arr x.1, x.2) := by
  have hopen : skip ('[' :: cs) = '[' :: cs := rfl
  unfold readValue
  simp only [hopen]

theorem reads_arr {cs : List Char} {ts : List Text} (h : ReadsItems cs ts) : Reads ('[' :: (cs ++ [']'])) (.arr ts) := by
  refine reads_of_eq fun fuel rest hends hfuel => ?_
  obtain ⟨hskip, hne⟩ := readItems_skip (h fuel rest (by simp at hfuel; omega))
  have htext : '[' :: (cs ++ [']']) ++ rest = '[' :: (cs ++ ']' :: rest) := by simp
  rw [htext, readValue_bracket hne, hskip]
  rfl

theorem reads_nil : Reads ['[', ']'] (.arr []) := reads_of_eq fun _ _ _ _ => rfl

/-- Members that are read one after the other up to the closing brace. -/
def ReadsMembers (cs : List Char) (ms : List (List Piece × Text)) : Prop :=
  ∀ (fuel : Nat) (rest : List Char), cs.length < fuel → readMembers fuel (cs ++ '\x7d' :: rest) = some (ms, rest)

theorem quoted_toList (s : String) : (quoted s).toList = '"' :: (s.toList.flatMap escaped ++ ['"']) := by simp [quoted]

/-- The text of members starts with the name of the first. -/
theorem members_text (name : String) (cs rest : List Char) : (quoted name).toList ++ ':' :: cs ++ rest =
    '"' :: (name.toList.flatMap escaped ++ '"' :: ':' :: (cs ++ rest)) := by simp [quoted_toList]

theorem ReadsMembers.last {name : String} {cs : List Char} {t : Text} (h : Reads cs t) :
    ReadsMembers ((quoted name).toList ++ ':' :: cs) [(name.toList.map piece, t)] := by
  intro fuel rest hfuel
  rw [List.length_append, List.length_cons] at hfuel
  obtain ⟨k, rfl⟩ : ∃ k, fuel = k + 1 := ⟨fuel - 1, by omega⟩
  obtain ⟨r, hread, hr⟩ := h k _ (by omega) (ends_brace rest)
  rw [members_text]
  refine Option.bind_eq_some_iff.2 ⟨_, readString_quoted _ _, ?_⟩
  refine Option.bind_eq_some_iff.2 ⟨(t, r), hread, ?_⟩
  dsimp only
  rw [hr]
  rfl

theorem ReadsMembers.cons {name : String} {cs more : List Char} {t : Text} {ms : List (List Piece × Text)}
    (h : Reads cs t) (hmore : ReadsMembers more ms) :
    ReadsMembers ((quoted name).toList ++ ':' :: cs ++ ',' :: more) ((name.toList.map piece, t) :: ms) := by
  intro fuel rest hfuel
  rw [List.length_append, List.length_append, List.length_cons, List.length_cons] at hfuel
  obtain ⟨k, rfl⟩ : ∃ k, fuel = k + 1 := ⟨fuel - 1, by omega⟩
  obtain ⟨r, hread, hr⟩ := h k _ (by omega) (ends_comma (more ++ '\x7d' :: rest))
  rw [List.append_assoc, List.cons_append, members_text]
  refine Option.bind_eq_some_iff.2 ⟨_, readString_quoted _ _, ?_⟩
  refine Option.bind_eq_some_iff.2 ⟨(t, r), hread, ?_⟩
  dsimp only
  rw [hr]
  exact Option.map_eq_some_iff.2 ⟨(ms, rest), hmore k rest (by omega), rfl⟩

theorem reads_obj {cs : List Char} {ms : List (List Piece × Text)} (h : ReadsMembers ('"' :: cs) ms) :
    Reads ('\x7b' :: ('"' :: cs ++ ['\x7d'])) (.obj ms) := by
  refine reads_of_eq fun fuel rest hends hfuel => ?_
  have hmembers := h fuel rest (by simp at hfuel ⊢; omega)
  have htext : '\x7b' :: ('"' :: cs ++ ['\x7d']) ++ rest = '\x7b' :: '"' :: (cs ++ '\x7d' :: rest) := by simp
  rw [List.cons_append] at hmembers
  rw [htext]
  show (readMembers fuel ('"' :: (cs ++ '\x7d' :: rest))).map (fun x => (Text.obj x.1, x.2)) = _
  rw [hmembers]
  rfl

theorem reads_empty : Reads ['\x7b', '\x7d'] (.obj []) := reads_of_eq fun _ _ _ _ => rfl

end Text

/-! ## All values -/

section Values

open Text

variable {O : List (String × Json) → Prop}

/-- The text `t` has the value `j`, if that many arrays and objects may stand inside each other. -/
def Means (t : Text) (j : Json) : Prop := ∀ depth, value? depth t = if j.nesting ≤ depth then some j else none

theorem means_atom {t : Text} {j : Json} (h : ∀ depth, value? depth t = some j) (hj : j.nesting = 0) : Means t j :=
  fun depth => by rw [h, hj, if_pos (Nat.zero_le _)]

theorem means_arr {ts : List Text} {items : List Json}
    (h : ∀ depth, values? depth ts = if itemsNesting items ≤ depth then some items else none) :
    Means (.arr ts) (arr items) := by
  intro depth
  cases depth with
  | zero => rfl
  | succ depth =>
    rw [value?, h, nesting]
    by_cases hle : itemsNesting items ≤ depth
    · rw [if_pos hle, if_pos (by omega)]
      rfl
    · rw [if_neg hle, if_neg (by omega)]
      rfl

theorem means_obj {ms : List (List Piece × Text)} {members : List (String × Json)}
    (h : ∀ depth, members? depth ms = if membersNesting members ≤ depth then some members else none) :
    Means (.obj ms) (obj members) := by
  intro depth
  cases depth with
  | zero => rfl
  | succ depth =>
    rw [value?, h, nesting]
    by_cases hle : membersNesting members ≤ depth
    · rw [if_pos hle, if_pos (by omega)]
      rfl
    · rw [if_neg hle, if_neg (by omega)]
      rfl

theorem values?_cons {t : Text} {ts : List Text} {j : Json} {js : List Json} (h : Means t j)
    (hs : ∀ depth, values? depth ts = if itemsNesting js ≤ depth then some js else none) (depth : Nat) :
    values? depth (t :: ts) = if itemsNesting (j :: js) ≤ depth then some (j :: js) else none := by
  rw [values?, h, hs, itemsNesting]
  by_cases hj : j.nesting ≤ depth
  · by_cases hjs : itemsNesting js ≤ depth
    · rw [if_pos hj, if_pos hjs, if_pos (by omega)]
      rfl
    · rw [if_pos hj, if_neg hjs, if_neg (by omega)]
      rfl
  · have hmax : ¬ max j.nesting (itemsNesting js) ≤ depth := by omega
    rw [if_neg hj, if_neg hmax]
    rfl

theorem members?_cons {name : String} {t : Text} {ms : List (List Piece × Text)} {j : Json}
    {members : List (String × Json)} (h : Means t j)
    (hs : ∀ depth, members? depth ms = if membersNesting members ≤ depth then some members else none) (depth : Nat) :
    members? depth ((name.toList.map piece, t) :: ms) =
      if membersNesting ((name, j) :: members) ≤ depth then some ((name, j) :: members) else none := by
  rw [members?, string?_piece, h, hs, membersNesting]
  by_cases hj : j.nesting ≤ depth
  · by_cases hjs : membersNesting members ≤ depth
    · rw [if_pos hj, if_pos hjs, if_pos (by omega)]
      rfl
    · rw [if_pos hj, if_neg hjs, if_neg (by omega)]
      rfl
  · have hmax : ¬ max j.nesting (membersNesting members) ≤ depth := by omega
    rw [if_neg hj, if_neg hmax]
    rfl

/-- The text of members starts with a quote. -/
theorem members_start (name : String) (j : Json) (ms : List (String × Json)) :
    ∃ cs, (",".intercalate (compactMembers ((name, j) :: ms))).toList = '"' :: cs := by
  cases ms with
  | nil => exact ⟨_, by simp [compactMembers, quoted_toList]; rfl⟩
  | cons m ms => exact ⟨_, by simp [compactMembers, String.intercalate_cons_cons, quoted_toList]; rfl⟩

mutual

theorem reads_compact : ∀ j : Json, j.Every Exact O → ∃ t, Reads j.compact.toList t ∧ Means t j
  | null, _ => ⟨.null, reads_of_eq fun _ _ _ _ => rfl, means_atom (fun _ => rfl) rfl⟩
  | bool true, _ => ⟨.bool true, reads_of_eq fun _ _ _ _ => rfl, means_atom (fun _ => rfl) rfl⟩
  | bool false, _ => ⟨.bool false, reads_of_eq fun _ _ _ _ => rfl, means_atom (fun _ => rfl) rfl⟩
  | int _, h =>
    let ⟨n, hread, hv⟩ := reads_int h
    ⟨.num n, hread, means_atom (fun _ => hv) rfl⟩
  | float _, h =>
    let ⟨n, hread, hv⟩ := reads_float h
    ⟨.num n, hread, means_atom (fun _ => hv) rfl⟩
  | str s, _ => ⟨_, reads_str s, means_atom (fun _ => by rw [value?, string?_piece]; rfl) rfl⟩
  | arr [], _ => ⟨.arr [], reads_nil, means_arr fun depth => by simp [values?, itemsNesting]⟩
  | arr (j :: js), h => by
    obtain ⟨ts, hread, hv⟩ := readsItems_compact (j :: js) h (List.cons_ne_nil _ _)
    refine ⟨.arr ts, ?_, means_arr hv⟩
    have htext : (arr (j :: js)).compact.toList =
        '[' :: ((",".intercalate (compactItems (j :: js))).toList ++ [']']) := by simp [compact]
    rw [htext]
    exact reads_arr hread
  | obj [], _ => ⟨.obj [], reads_empty, means_obj fun depth => by simp [members?, membersNesting]⟩
  | obj ((name, j) :: ms), h => by
    obtain ⟨ts, hread, hv⟩ := readsMembers_compact ((name, j) :: ms) h.2 (List.cons_ne_nil _ _)
    refine ⟨.obj ts, ?_, means_obj hv⟩
    obtain ⟨cs, hcs⟩ := members_start name j ms
    have htext : (obj ((name, j) :: ms)).compact.toList = '\x7b' :: ('"' :: cs ++ ['\x7d']) := by
      rw [← hcs]
      simp [compact]
    rw [hcs] at hread
    rw [htext]
    exact reads_obj hread

theorem readsItems_compact : ∀ items : List Json, EveryItem Exact O items → items ≠ [] →
    ∃ ts, ReadsItems (",".intercalate (compactItems items)).toList ts ∧
      ∀ depth, values? depth ts = if itemsNesting items ≤ depth then some items else none
  | [], _, hne => absurd rfl hne
  | [j], h, _ => by
    obtain ⟨t, hread, hv⟩ := reads_compact j h.1
    refine ⟨[t], ?_, values?_cons hv fun depth => by simp [values?, itemsNesting]⟩
    have htext : ",".intercalate (compactItems [j]) = j.compact := by simp [compactItems]
    rw [htext]
    exact .last hread
  | j :: i :: js, h, _ => by
    obtain ⟨t, hread, hv⟩ := reads_compact j h.1
    obtain ⟨ts, hreads, hvs⟩ := readsItems_compact (i :: js) h.2 (List.cons_ne_nil _ _)
    refine ⟨t :: ts, ?_, values?_cons hv hvs⟩
    have htext : (",".intercalate (compactItems (j :: i :: js))).toList =
        j.compact.toList ++ ',' :: (",".intercalate (compactItems (i :: js))).toList := by
      simp [compactItems, String.intercalate_cons_cons]
    rw [htext]
    exact .cons hread hreads

theorem readsMembers_compact : ∀ members : List (String × Json), EveryMember Exact O members → members ≠ [] →
    ∃ ts, ReadsMembers (",".intercalate (compactMembers members)).toList ts ∧
      ∀ depth, members? depth ts = if membersNesting members ≤ depth then some members else none
  | [], _, hne => absurd rfl hne
  | [(name, j)], h, _ => by
    obtain ⟨t, hread, hv⟩ := reads_compact j h.1
    refine ⟨[(name.toList.map piece, t)], ?_, members?_cons hv fun depth => by simp [members?, membersNesting]⟩
    have htext : (",".intercalate (compactMembers [(name, j)])).toList =
        (quoted name).toList ++ ':' :: j.compact.toList := by simp [compactMembers]
    rw [htext]
    exact .last hread
  | (name, j) :: (other, i) :: ms, h, _ => by
    obtain ⟨t, hread, hv⟩ := reads_compact j h.1
    obtain ⟨ts, hreads, hvs⟩ := readsMembers_compact ((other, i) :: ms) h.2 (List.cons_ne_nil _ _)
    refine ⟨(name.toList.map piece, t) :: ts, ?_, members?_cons hv hvs⟩
    have htext : (",".intercalate (compactMembers ((name, j) :: (other, i) :: ms))).toList =
        (quoted name).toList ++ ':' :: j.compact.toList ++
          ',' :: (",".intercalate (compactMembers ((other, i) :: ms))).toList := by
      simp [compactMembers, String.intercalate_cons_cons]
    rw [htext]
    exact .cons hread hreads

end

/-- **The compact form** of a value is read as that value, unless its nesting is too deep for the reader. -/
theorem parse?_compact {j : Json} (h : j.Every Exact O) :
    parse? j.compact = if j.nesting ≤ maxDepth then some j else none := by
  obtain ⟨t, hread, hv⟩ := reads_compact j h
  obtain ⟨r, hvalue, hr⟩ := hread (j.compact.toList.length + 1) [] (Nat.le_succ _) ends_nil
  rw [List.append_nil] at hvalue
  unfold parse? Text.read
  dsimp only
  rw [hvalue]
  dsimp only
  rw [if_pos hr, Option.bind_some, hv]

end Values

end Json

end Stepwise

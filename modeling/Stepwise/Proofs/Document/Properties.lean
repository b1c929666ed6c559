import Mathlib.Logic.Relation
import Stepwise.Document.Fixture
import Stepwise.Proofs.Machine.Registry

/-!
# Reading what was written

Reading a property of an element looks at the stored data first and at the identifier, the tag and the classes second.
Writing chooses by the name: an identifier is never stored as data. So an element that has data under the name `id`, as a
fixture may give it, hides its identifier. Nothing that is done to a document later stores or removes such data
(`Document.Change.hidingIds`, `Document.hidingIds_of_changes`).

**`Document.written_text_read`**: a written text is read back, unless it is an identifier that is hidden, and nothing else
changes.
-/

namespace Stepwise

/-! ## One element -/

namespace Element

variable {e e' : Element} {name : String}

/-- The data that a script reads in place of the identifier. -/
def hidingId? (e : Element) : Option Json := e.properties.get? "id"

/-- Reading a property depends on what is stored under its name, and for `id` on the identifier. -/
theorem get_congr (hs : e'.properties.get? name = e.properties.get? name) (hi : name = "id" → e'.id = e.id)
    (ht : e'.tag = e.tag) (hc : e'.classes = e.classes) : e'.get name = e.get name := by
  unfold get
  rw [hs, ht, hc]
  by_cases hn : name = "id"
  · rw [hi hn]
  · cases e.properties.get? name with
    | some data => rfl
    | none =>
      dsimp only
      split <;> first | rfl | exact absurd rfl hn

/-- The element `e'` is `e` after one property was written. -/
structure Writes (name : String) (e e' : Element) : Prop where
  tag : e'.tag = e.tag
  classes : e'.classes = e.classes
  attributes : e'.attributes = e.attributes
  listeners : e'.listeners = e.listeners
  /-- Data under other names stays. -/
  stored : ∀ other, other ≠ name → e'.properties.get? other = e.properties.get? other
  /-- The identifier is no data, and changes only if it is written itself. -/
  id : if name = "id" then e'.properties = e.properties else e'.id = e.id
  /-- All other properties are read as before. -/
  others : ∀ other, other ≠ name → e'.get other = e.get other

theorem writes_id (e : Element) (text : String) : e.Writes "id" { e with id := some text } where
  tag := rfl
  classes := rfl
  attributes := rfl
  listeners := rfl
  stored _ _ := rfl
  id := rfl
  others _ ho := get_congr rfl (fun h => absurd h ho) rfl rfl

theorem writes_data (e : Element) (hn : name ≠ "id") (data : Json) :
    e.Writes name { e with properties := e.properties.insert name data } := by
  have hstored : ∀ other, other ≠ name → (e.properties.insert name data).get? other = e.properties.get? other := by
    intro other ho
    rw [NameMap.get?_insert, if_neg ho]
  refine ⟨rfl, rfl, rfl, rfl, hstored, ?_, fun other ho => get_congr (hstored other ho) (fun _ => rfl) rfl rfl⟩
  rw [if_neg hn]

/-- What is read after a text was written. -/
def readBack (e : Element) (name text : String) : Value :=
  if name = "id" then e.hidingId?.elim (.str text) Value.ofData else .str text

theorem readBack_eq_iff (text : String) : e.readBack name text = .str text ↔
    ∀ data, name = "id" → e.hidingId? = some data → Value.ofData data = .str text := by
  unfold readBack
  by_cases hn : name = "id"
  · cases hd : e.hidingId? with
    | none => simp [hn]
    | some data => simp [hn]
  · simp [hn]

/-- **Writing a text** to any property but the tag and the classes succeeds. -/
theorem set_text (e : Element) (ht : name ≠ "tagName") (hc : name ≠ "className") (text : String) :
    ∃ e', e.set name (.str text) = .ok e' ∧ e.Writes name e' ∧ e'.get name = .value (e.readBack name text) := by
  by_cases hn : name = "id"
  · subst hn
    refine ⟨{ e with id := some text }, rfl, e.writes_id text, ?_⟩
    unfold get readBack hidingId?
    cases e.properties.get? "id" <;> rfl
  · refine ⟨{ e with properties := e.properties.insert name (.str text) }, ?_, e.writes_data hn _, ?_⟩
    · unfold set
      split <;> first | rfl | contradiction
    · unfold get readBack
      rw [NameMap.get?_insert_self, if_neg hn]
      rfl

theorem set_hidingId? {v : Value} (h : e.set name v = .ok e') : e'.hidingId? = e.hidingId? := by
  unfold set at h
  split at h
  · cases h; rfl
  · cases h; rfl
  · cases h
  · rename_i hn _ _
    cases h
    exact (NameMap.get?_insert ..).trans (if_neg fun heq => hn heq.symm)

theorem call_hidingId? {args : List Value} {v : Value} (h : e.call name args = .ok (v, e')) :
    e'.hidingId? = e.hidingId? := by
  unfold call at h
  split at h <;> cases h <;> rfl

end Element

/-! ## Documents -/

namespace Document

variable {d d' : Document}

/-- What hides the identifiers of the elements, in order. -/
def hidingIds (d : Document) : List (Option Json) := d.elements.map (·.hidingId?)

/-- One thing that is done to a document. -/
inductive Change : Document → Document → Prop where
  | set {d d' : Document} {node : Nat} {name : String} {v : Value} : d.set node name v = .ok d' → Change d d'
  | call {d d' : Document} {node : Nat} {name : String} {args : List Value} {v : Value} :
    d.call node name args = .ok (v, d') → Change d d'
  | listen {d : Document} {node : Nat} {event : String} : Change d (d.listen node event)
  | callGlobal {d d' : Document} {name : String} {args : List Value} {v : Value} :
    d.callGlobal name args = .ok (v, d') → Change d d'

/-- Changes neither hide an identifier nor uncover one. -/
theorem Change.hidingIds (h : Change d d') : d'.hidingIds = d.hidingIds := by
  cases h with
  | set h =>
    obtain ⟨e, e', he, hs, rfl⟩ := set_replaces h
    exact map_replace (·.hidingId?) he (Element.set_hidingId? hs)
  | call h =>
    obtain ⟨e, e', he, hc, rfl⟩ := call_replaces h
    exact map_replace (·.hidingId?) he (Element.call_hidingId? hc)
  | @listen node event =>
    unfold Document.listen element?
    cases he : d.elements[node]? with
    | none => rfl
    | some e => exact map_replace (·.hidingId?) he rfl
  | callGlobal h =>
    unfold Document.callGlobal at h
    split at h <;> cases h <;> rfl

theorem hidingIds_of_changes (h : Relation.ReflTransGen Change d d') : d'.hidingIds = d.hidingIds := by
  induction h with
  | refl => rfl
  | tail _ hc ih => rw [hc.hidingIds, ih]

/-- Elements stay where they are, and so does what hides their identifiers. -/
theorem element?_of_changes (h : Relation.ReflTransGen Change d d') {node : Nat} {e : Element}
    (he : d.element? node = some e) : ∃ e', d'.element? node = some e' ∧ e'.hidingId? = e.hidingId? := by
  have hids : d'.hidingIds[node]? = some e.hidingId? := by
    rw [hidingIds_of_changes h, hidingIds, List.getElem?_map]
    exact congrArg (Option.map _) he
  rw [hidingIds, List.getElem?_map] at hids
  exact Option.map_eq_some_iff.1 hids

/-- The document `d'` is `d` after a property of one element was written. -/
structure Writes (node : Nat) (name : String) (d d' : Document) : Prop where
  elements : ∀ other, other ≠ node → d'.element? other = d.element? other
  element : ∃ e e', d.element? node = some e ∧ d'.element? node = some e' ∧ e.Writes name e'
  /-- The global names, the answers and the record of dialogs stay. -/
  rest : { d' with elements := d.elements } = d

theorem set_of_element {node : Nat} {name : String} {v : Value} {e e' : Element} (he : d.element? node = some e)
    (hs : e.set name v = .ok e') : d.set node name v = .ok (d.replace node e') := by
  unfold set existing
  rw [he]
  dsimp only [Bind.bind, Except.bind]
  rw [hs]
  rfl

theorem element?_replace {node : Nat} {e : Element} (he : d.element? node = some e) (e' : Element) (other : Nat) :
    (d.replace node e').element? other = if other = node then some e' else d.element? other := by
  have hlt : node < d.elements.length := (List.getElem?_eq_some_iff.1 he).1
  unfold replace element?
  rw [List.getElem?_set]
  by_cases ho : other = node
  · simp [ho, hlt]
  · rw [if_neg (Ne.symm ho), if_neg ho]

/-- **Written texts are read back.** In a document `d` that comes from `d₀` by any changes, a text is written to a property
of an element, be it any property but the tag and the classes.

* The writing succeeds and changes nothing else: all other elements, and the tag, the classes, the attributes, the
  listeners and all other properties of this one stay.
* The text is read back, except if it is an identifier, the element had data under the name `id` in `d₀`, and these read
  as something else. Then they are what is read. -/
theorem written_text_read {d₀ d : Document} (h : Relation.ReflTransGen Change d₀ d) {node : Nat} {e : Element}
    (he : d₀.element? node = some e) {name : String} (ht : name ≠ "tagName") (hc : name ≠ "className") (text : String) :
    ∃ d', d.set node name (.str text) = .ok d' ∧ d.Writes node name d' ∧
      (d'.get node name = .value (.str text) ↔
        ∀ data, name = "id" → e.properties.get? "id" = some data → Value.ofData data = .str text) ∧
      ∀ data, name = "id" → e.properties.get? "id" = some data → d'.get node name = .value (.ofData data) := by
  obtain ⟨now, hnow, hhiding⟩ := element?_of_changes h he
  obtain ⟨new, hset, hwrites, hget⟩ := now.set_text ht hc text
  have hnew : (d.replace node new).element? node = some new := by rw [element?_replace hnow, if_pos rfl]
  have hread : (d.replace node new).get node name = .value (now.readBack name text) := by
    unfold Document.get
    rw [hnew]
    exact hget
  refine ⟨d.replace node new, set_of_element hnow hset, ⟨fun other ho => ?_, ⟨now, new, hnow, hnew, hwrites⟩, rfl⟩, ?_, ?_⟩
  · rw [element?_replace hnow, if_neg ho]
  · rw [hread, Property.value.injEq, Element.readBack_eq_iff, hhiding]
    rfl
  · intro data hn hdata
    rw [hread, Element.readBack, if_pos hn, hhiding, Element.hidingId?, hdata]
    rfl

/-- A page with two elements. The second one has data under the name `id`. -/
def hidingPage : Document :=
  { Document.empty with
    elements := [⟨some "a", "div", [], ∅, ∅, []⟩, ⟨none, "div", [], NameMap.empty.insert "id" (.str "x"), ∅, []⟩] }

/-- After the identifier of the first element was written, the second one takes a title, but not an identifier. -/
theorem written_text_read_hidingPage : ∃ d titled named, hidingPage.set 0 "id" (.str "b") = .ok d ∧
    d.set 1 "title" (.str "t") = .ok titled ∧ d.Writes 1 "title" titled ∧ titled.get 1 "title" = .value (.str "t") ∧
    d.set 1 "id" (.str "y") = .ok named ∧ d.Writes 1 "id" named ∧ named.get 1 "id" = .value (.str "x") := by
  have hfirst : hidingPage.set 0 "id" (.str "b") =
      .ok (hidingPage.replace 0 ⟨some "b", "div", [], ∅, ∅, []⟩) := rfl
  have hchange : Relation.ReflTransGen Change hidingPage (hidingPage.replace 0 ⟨some "b", "div", [], ∅, ∅, []⟩) :=
    .single (.set hfirst)
  have hsecond : hidingPage.element? 1 =
      some ⟨none, "div", [], NameMap.empty.insert "id" (.str "x"), ∅, []⟩ := rfl
  obtain ⟨titled, hset, hwrites, hread, -⟩ :=
    written_text_read hchange hsecond (by decide : "title" ≠ "tagName") (by decide) "t"
  obtain ⟨named, hset', hwrites', -, hread'⟩ :=
    written_text_read hchange hsecond (by decide : "id" ≠ "tagName") (by decide) "y"
  exact ⟨_, titled, named, hfirst, hset, hwrites, hread.2 (fun _ hn => absurd hn (by decide)), hset', hwrites',
    hread' (.str "x") rfl rfl⟩

/-- A fixture of one element with data under the name `id`. -/
def hidingFixture : String := "\x7b\"elements\": [\x7b\"id\": \"a\", \"properties\": \x7b\"id\": \"x\"\x7d\x7d]\x7d"

/-- An identifier that was written is not read back. -/
theorem written_id_hidden : ∃ d d', ofFixture? hidingFixture = some d ∧ d.set 0 "id" (.str "y") = .ok d' ∧
    d'.get 0 "id" = .value (.str "x") ∧ d'.get 0 "id" ≠ .value (.str "y") := by
  have hfixture : (ofFixture? hidingFixture).any (fun d => (d.element? 0).any fun e =>
      e.hidingId?.bind Json.str? == some "x") = true := by decide +kernel
  obtain ⟨d, hd, hany⟩ := (Option.any_eq_true ..).1 hfixture
  obtain ⟨e, he, hid⟩ := (Option.any_eq_true ..).1 hany
  obtain ⟨data, hdata, hx⟩ := Option.bind_eq_some_iff.1 (beq_iff_eq.1 hid)
  have hread : (d.replace 0 { e with id := some "y" }).get 0 "id" = .value (.ofData data) := by
    unfold Document.get
    rw [element?_replace he, if_pos rfl]
    dsimp only [Element.get]
    rw [← Element.hidingId?, hdata]
  refine ⟨d, d.replace 0 { e with id := some "y" }, hd, set_of_element he rfl, ?_⟩
  cases data <;> cases hx
  rw [hread]
  exact ⟨rfl, by simp [Value.ofData]⟩

end Document

end Stepwise

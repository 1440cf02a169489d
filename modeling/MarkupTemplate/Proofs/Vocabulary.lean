import MarkupTemplate.Data.Reading
import MarkupTemplate.Proofs.DirectiveKeys
import MarkupTemplate.Proofs.Validation

/-!
# The vocabulary of contents

Which JSON values stand for contents, and that nothing in them is lost.

* `Directive.Accepted` — the entries that may stand in a set of directives: seven keys, each with its
  kind of value. `exists_entryRead_iff` — an entry that may stand there is read.
* `Json.Holds` — the values that stand for contents in a value: items, values of plain objects and
  those of the directives that fill a node.
* `Json.StandsFor` — a value and the content that it is read as, part by part; `Json.SetFor` — the
  entries of a set and its directives, in order.
* `content_of_json` — **the main result**: a value is a content just if the sets of directives in it
  hold nothing else, and what it is read as is all that it says.
-/

namespace MarkupTemplate

open XPath (bind_eq_ok pure_eq_ok)
open Css (map_eq_ok forall₂_of_mapM)
open Directive (Written keyWith)

variable {key : String} {value v : Json} {entries rest : List (String × Json)} {items : List Json}

/-! ## Results that are there -/

theorem isOk_map_iff {ε α β : Type} {x : Except ε α} {make : α → β} :
    (∃ b, (do return make (← x)) = .ok b) ↔ ∃ a, x = .ok a := by
  cases x with
  | error => exact iff_of_false (fun ⟨_, h⟩ => (by cases h)) fun ⟨_, h⟩ => (by cases h)
  | ok a => exact iff_of_true ⟨_, rfl⟩ ⟨a, rfl⟩

theorem isOk_cons_iff {ε α β : Type} {x : Except ε α} {y : Except ε (List β)}
    {make : α → β} :
    (∃ bs, (do let a ← x; return make a :: (← y)) = .ok bs) ↔ (∃ a, x = .ok a) ∧ ∃ bs, y = .ok bs := by
  cases x with
  | error => exact iff_of_false (fun ⟨_, h⟩ => (by cases h)) fun ⟨⟨_, h⟩, _⟩ => (by cases h)
  | ok a => exact isOk_map_iff.trans (iff_and_self.2 fun _ => ⟨a, rfl⟩)

theorem isOk_foldlM_iff {ε α β : Type} {f : β → α → Except ε β} {P : α → Prop}
    (h : ∀ b a, (∃ b', f b a = .ok b') ↔ P a) :
    ∀ (as : List α) (b : β), (∃ b', as.foldlM f b = .ok b') ↔ ∀ a ∈ as, P a
  | [], b => by simp [pure_eq_ok]
  | a :: as, b => by
    rw [List.forall_mem_cons, ← h b a, List.foldlM_cons]
    constructor
    · rintro ⟨b', hb'⟩
      obtain ⟨first, hfirst, hrest⟩ := bind_eq_ok.1 hb'
      exact ⟨⟨first, hfirst⟩, (isOk_foldlM_iff h as first).1 ⟨b', hrest⟩⟩
    · rintro ⟨⟨first, hfirst⟩, hall⟩
      obtain ⟨b', hb'⟩ := (isOk_foldlM_iff h as first).2 hall
      exact ⟨b', bind_eq_ok.2 ⟨first, hfirst, hb'⟩⟩

theorem isOk_mapM_iff {ε α β : Type} {f : α → Except ε β} : ∀ as : List α,
    (∃ bs, as.mapM f = .ok bs) ↔ ∀ a ∈ as, ∃ b, f a = .ok b
  | [] => by simp [pure_eq_ok]
  | a :: as => by
    rw [List.forall_mem_cons, ← isOk_mapM_iff as, List.mapM_cons]
    exact isOk_cons_iff

/-! ## Entries of sets -/

/-- What an entry of a set of directives is read as. -/
inductive EntryRead (key : String) (value : Json) : DirectiveEntry → Prop
  | params {p : Params} (h : splitPosition key = ("@params", none))
      (read : Params.ofJson value = .ok p) : EntryRead key value (.params p)
  | content {position : Option InsertMode} {c : Content}
      (h : splitPosition key = ("@content", position)) (read : Content.ofJson value = .ok c) :
      EntryRead key value (.directive (.content (position.getD .replace) c))
  | children {position : Option InsertMode} {c : Content}
      (h : splitPosition key = ("@children", position)) (read : Content.ofJson value = .ok c) :
      EntryRead key value (.directive (.children (position.getD .replace) c))
  | attributes {position : Option InsertMode} {values : List (String × Option String)}
      (h : splitPosition key = ("@attr", position)) (read : attributeEntries value = .ok values) :
      EntryRead key value (.directive (.setAttributes (position.getD .replace) values))
  | fetch {position : Option InsertMode} {l : ImportLocation}
      (h : splitPosition key = ("@import", position)) (read : locationOf value = .ok l) :
      EntryRead key value (.directive (.fetch (position.getD .replace) l))
  | control {c : RenderControl} (h : splitPosition key = ("@render", none))
      (read : renderControl value = .ok c) : EntryRead key value (.directive (.control c))
  | repetition {c : Content} (h : splitPosition key = ("@repeat", none))
      (read : Content.ofJson value = .ok c) : EntryRead key value (.directive (.repetition c))

theorem entry_eq_ok {α : Type} {x : Except Error α} {make : α → DirectiveEntry}
    {found : List DirectiveEntry} :
    (do
      let e ← make <$> x
      let others ← directiveEntries rest
      pure (e :: others)) = .ok found ↔
      ∃ a others, x = .ok a ∧ directiveEntries rest = .ok others ∧ found = make a :: others := by
  constructor
  · intro h
    obtain ⟨e, he, h⟩ := bind_eq_ok.1 h
    obtain ⟨a, ha, rfl⟩ := map_eq_ok he
    obtain ⟨others, hothers, h⟩ := bind_eq_ok.1 h
    exact ⟨a, others, ha, hothers, (pure_eq_ok.1 h).symm⟩
  · rintro ⟨a, others, rfl, hothers, rfl⟩
    exact bind_eq_ok.2 ⟨make a, rfl, bind_eq_ok.2 ⟨others, hothers, rfl⟩⟩

namespace EntryRead

/-- An entry of a set is read, and then those behind it. -/
theorem of_cons {found : List DirectiveEntry}
    (h : directiveEntries ((key, value) :: rest) = .ok found) :
    ∃ e others, EntryRead key value e ∧ directiveEntries rest = .ok others ∧ found = e :: others := by
  have entry {α : Type} {x : Except Error α} {make : α → DirectiveEntry}
      (h : (do
        let e ← make <$> x
        let others ← directiveEntries rest
        pure (e :: others)) = .ok found)
      (read : ∀ {a}, x = .ok a → EntryRead key value (make a)) :
      ∃ e others, EntryRead key value e ∧ directiveEntries rest = .ok others ∧
        found = e :: others := by
    obtain ⟨a, others, ha, hothers, rfl⟩ := entry_eq_ok.1 h
    exact ⟨_, others, read ha, hothers, rfl⟩
  have alone {position : Option InsertMode} {name name' : String}
      (h : (decide (name = name') && position.isNone) = true) : (name, position) = (name', none) := by
    simpa using h
  rw [directiveEntries] at h
  cases hsplit : splitPosition key with
  | mk name position =>
    rw [hsplit] at h
    dsimp only at h
    split at h
    · rename_i hname
      exact entry h (.params (hsplit.trans (alone hname)))
    split at h
    · rename_i hname
      exact entry h (.content (hname ▸ hsplit))
    split at h
    · rename_i hname
      exact entry h (.children (hname ▸ hsplit))
    split at h
    · rename_i hname
      exact entry h (.attributes (hname ▸ hsplit))
    split at h
    · rename_i hname
      exact entry h (.fetch (hname ▸ hsplit))
    split at h
    · rename_i hname
      exact entry h (.control (hsplit.trans (alone hname)))
    split at h
    · rename_i hname
      exact entry h (.repetition (hsplit.trans (alone hname)))
    · cases h

theorem cons {e : DirectiveEntry} {others : List DirectiveEntry} (he : EntryRead key value e)
    (hothers : directiveEntries rest = .ok others) :
    directiveEntries ((key, value) :: rest) = .ok (e :: others) := by
  have entry {α : Type} {x : Except Error α} {a : α} (make : α → DirectiveEntry) (read : x = .ok a) :
      (do
        let e ← make <$> x
        let others ← directiveEntries rest
        pure (e :: others)) = .ok (make a :: others) :=
    entry_eq_ok.2 ⟨a, others, read, hothers, rfl⟩
  rw [directiveEntries]
  cases he with
  | params h read | content h read | children h read | attributes h read | fetch h read
  | control h read | repetition h read => simpa [h] using entry _ read

end EntryRead

/-! ## Parameters -/

/-- A parameter with a text that it can be read of. -/
inductive Params.Known : String → String → Prop
  | contentType {text : String} {t : ContentType} (read : ContentType.read text = .ok t) :
      Known "content_type" text
  | repetition {text : String} {s : RepeatStrategy} (read : RepeatStrategy.read text = .ok s) :
      Known "repeat_fn" text
  | onEmpty {text : String} {p : EmptyPolicy} (read : EmptyPolicy.read text = .ok p) :
      Known "on_content_empty" text
  | cache {text : String} {c : CacheControl} (read : CacheControl.read text = .ok c) :
      Known "cache" text

theorem Params.set_isOk_iff {p : Params} {text : String} :
    (∃ q, p.set key text = .ok q) ↔ Known key text := by
  constructor
  · rintro ⟨q, h⟩
    rw [set] at h
    split at h
    · obtain ⟨t, ht, -⟩ := bind_eq_ok.1 h
      rename_i hkey
      exact hkey ▸ .contentType ht
    split at h
    · obtain ⟨t, ht, -⟩ := bind_eq_ok.1 h
      rename_i hkey
      exact hkey ▸ .repetition ht
    split at h
    · obtain ⟨t, ht, -⟩ := bind_eq_ok.1 h
      rename_i hkey
      exact hkey ▸ .onEmpty ht
    split at h
    · obtain ⟨t, ht, -⟩ := bind_eq_ok.1 h
      rename_i hkey
      exact hkey ▸ .cache ht
    · cases h
  · intro h
    cases h with
    | contentType read | repetition read | onEmpty read | cache read =>
      simp [set, read]

/-! ## Values of directives -/

namespace Json

/-- A value without parts. -/
inductive IsScalar : Json → Prop
  | bool (b : Bool) : IsScalar (.bool b)
  | number (n : JsonNumber) : IsScalar (.number n)
  | string (s : String) : IsScalar (.string s)

/-- An object of attributes. -/
def IsAttributes (v : Json) : Prop :=
  ∃ entries, v = .object entries ∧ ∀ e ∈ entries, e.2 = .null ∨ e.2.IsScalar

/-- The text of a location. -/
def IsLocation (v : Json) : Prop :=
  ∃ text l, v = .string text ∧ ImportLocation.read text = .ok l

/-- What says what becomes of a node. -/
def IsControl (v : Json) : Prop :=
  (∃ b, v = .bool b) ∨ ∃ s, v = .string s

/-- An object of parameters. -/
def IsParams (v : Json) : Prop :=
  ∃ entries, v = .object entries ∧ ∀ e ∈ entries, ∃ text, e.2 = .string text ∧ Params.Known e.1 text

end Json

theorem attributeEntry_isOk_iff {e : String × Json} :
    (∃ a, attributeEntry e = .ok a) ↔ e.2 = .null ∨ e.2.IsScalar := by
  obtain ⟨name, value⟩ := e
  cases value with
  | null => simp [attributeEntry]
  | bool b => simp [attributeEntry, scalarText?, Json.IsScalar.bool]
  | number n => simp [attributeEntry, scalarText?, Json.IsScalar.number]
  | string s => simp [attributeEntry, scalarText?, Json.IsScalar.string]
  | array | object =>
    refine iff_of_false ?_ ?_
    · rintro ⟨a, ha⟩
      cases ha
    · rintro (h | h) <;> cases h

theorem attributeEntries_isOk_iff : (∃ values, attributeEntries v = .ok values) ↔ v.IsAttributes := by
  cases v with
  | object entries =>
    rw [attributeEntries, isOk_mapM_iff]
    simp only [attributeEntry_isOk_iff, Json.IsAttributes, Json.object.injEq, exists_eq_left']
  | null | bool | number | string | array =>
    refine iff_of_false (fun ⟨_, h⟩ => (by cases h)) ?_
    rintro ⟨entries, h, -⟩
    cases h

theorem locationOf_isOk_iff : (∃ l, locationOf v = .ok l) ↔ v.IsLocation := by
  cases v with
  | string text => simp [locationOf, Json.IsLocation]
  | null | bool | number | array | object =>
    refine iff_of_false (fun ⟨_, h⟩ => (by cases h)) ?_
    rintro ⟨text, l, h, -⟩
    cases h

theorem renderControl_isOk_iff : (∃ c, renderControl v = .ok c) ↔ v.IsControl := by
  cases v with
  | bool b => exact iff_of_true ⟨_, rfl⟩ (.inl ⟨b, rfl⟩)
  | string s =>
    refine iff_of_true ?_ (.inr ⟨s, rfl⟩)
    rw [renderControl]
    split <;> exact ⟨_, rfl⟩
  | null | number | array | object =>
    refine iff_of_false (fun ⟨_, h⟩ => (by cases h)) ?_
    rintro (⟨_, h⟩ | ⟨_, h⟩) <;> cases h

theorem Params.addEntry_isOk_iff {p : Params} {e : String × Json} :
    (∃ q, p.addEntry e = .ok q) ↔ ∃ text, e.2 = .string text ∧ Known e.1 text := by
  obtain ⟨key, value⟩ := e
  cases value with
  | string text => simp [addEntry, set_isOk_iff]
  | null | bool | number | array | object =>
    refine iff_of_false (fun ⟨_, h⟩ => (by cases h)) ?_
    rintro ⟨text, h, -⟩
    cases h

theorem Params.ofJson_isOk_iff : (∃ p, Params.ofJson v = .ok p) ↔ v.IsParams := by
  cases v with
  | object entries =>
    rw [ofJson, isOk_foldlM_iff (f := addEntry) fun p e => addEntry_isOk_iff]
    simp only [Json.IsParams, Json.object.injEq, exists_eq_left']
  | null | bool | number | string | array =>
    refine iff_of_false (fun ⟨_, h⟩ => (by cases h)) ?_
    rintro ⟨entries, h, -⟩
    cases h

/-! ## Positions of values -/

namespace Directive

/-- A key whose value is a content. -/
inductive Fills (key : String) : Prop
  | content {position : Option InsertMode} (written : Written "@content" position key)
  | children {position : Option InsertMode} (written : Written "@children" position key)
  | repetition (written : Written "@repeat" none key)

/-- The names of keys. -/
def names : List String :=
  ["@content", "@children", "@attr", "@import", "@render", "@repeat", "@params"]

theorem isBare_of_mem_names {name : String} (h : name ∈ names) : isBare name = true :=
  List.all_eq_true.1 (by decide : names.all isBare = true) name h

theorem splitPosition_iff {name : String} {position : Option InsertMode} (h : name ∈ names) :
    splitPosition key = (name, position) ↔ Written name position key :=
  splitPosition_eq_iff (isBare_of_mem_names h)

/-- An entry that may stand in a set of directives, but for contents in it. -/
inductive Accepted (key : String) (value : Json) : Prop
  | content {position : Option InsertMode} (written : Written "@content" position key)
  | children {position : Option InsertMode} (written : Written "@children" position key)
  | attributes {position : Option InsertMode} (written : Written "@attr" position key)
      (h : value.IsAttributes)
  | fetch {position : Option InsertMode} (written : Written "@import" position key)
      (h : value.IsLocation)
  | control (written : Written "@render" none key) (h : value.IsControl)
  | repetition (written : Written "@repeat" none key)
  | params (written : Written "@params" none key) (h : value.IsParams)

end Directive

open Directive (Fills Accepted splitPosition_iff)

/-- A key begins with an at sign. -/
def Json.IsSet (entries : List (String × Json)) : Prop :=
  ∃ e ∈ entries, e.1.toList.head? = some '@'

theorem Json.any_isDirectiveKey_iff :
    (entries.any fun e => isDirectiveKey e.1) = true ↔ Json.IsSet entries := by
  simp [IsSet, isDirectiveKey]

/-- The values that stand for contents in a value. -/
inductive Json.Holds : Json → Json → Prop
  | here (v : Json) : Holds v v
  | item {items : List Json} {item v : Json} (h : item ∈ items) (below : Holds item v) :
      Holds (.array items) v
  | entry {entries : List (String × Json)} {key : String} {value v : Json} (plain : ¬ IsSet entries)
      (h : (key, value) ∈ entries) (below : Holds value v) : Holds (.object entries) v
  | filling {entries : List (String × Json)} {key : String} {value v : Json} (set : IsSet entries)
      (h : (key, value) ∈ entries) (fills : Fills key) (below : Holds value v) :
      Holds (.object entries) v

/-- The sets of directives in a value hold nothing else. -/
def Json.Accepts (v : Json) : Prop :=
  ∀ entries, v.Holds (.object entries) → IsSet entries → ∀ e ∈ entries, Accepted e.1 e.2

/-! ## What is accepted -/

namespace Json

theorem accepts_array_iff : (Json.array items).Accepts ↔ ∀ item ∈ items, item.Accepts := by
  constructor
  · exact fun h item hitem entries below => h entries (.item hitem below)
  · intro h entries holds
    cases holds with
    | item hitem below => exact h _ hitem entries below

theorem accepts_object_iff (plain : ¬ IsSet entries) :
    (Json.object entries).Accepts ↔ ∀ e ∈ entries, e.2.Accepts := by
  constructor
  · exact fun h e he within below => h within (.entry plain he below)
  · intro h within holds
    cases holds with
    | here => exact fun set => absurd set plain
    | entry _ he below => exact h _ he within below
    | filling set => exact absurd set plain

theorem accepts_set_iff (set : IsSet entries) : (Json.object entries).Accepts ↔
    ∀ e ∈ entries, Accepted e.1 e.2 ∧ (Fills e.1 → e.2.Accepts) := by
  constructor
  · intro h e he
    exact ⟨h entries (.here _) set e he, fun fills within below =>
      h within (.filling set he fills below)⟩
  · intro h within holds
    cases holds with
    | here => exact fun _ e he => (h e he).1
    | entry plain => exact absurd set plain
    | filling _ he fills below => exact (h _ he).2 fills within below

end Json

theorem EntryRead.fills {e : DirectiveEntry} (h : EntryRead key value e) (fills : Fills key) :
    ∃ c, Content.ofJson value = .ok c := by
  cases fills with
  | content written | children written | repetition written =>
    have hsplit := (splitPosition_iff (by decide)).2 written
    cases h with
    | content h read | children h read | repetition h read => exact ⟨_, read⟩
    | params h | attributes h | fetch h | control h =>
      exact absurd (Prod.mk.inj (hsplit.symm.trans h)).1 (by decide)

/-- An entry of a set is read if it may stand there and what stands for a content in it is one. -/
theorem exists_entryRead_iff : (∃ e, EntryRead key value e) ↔
    Accepted key value ∧ (Fills key → ∃ c, Content.ofJson value = .ok c) := by
  constructor
  · rintro ⟨e, h⟩
    refine ⟨?_, h.fills⟩
    cases h with
    | params h read => exact .params ((splitPosition_iff (by decide)).1 h) (Params.ofJson_isOk_iff.1 ⟨_, read⟩)
    | content h => exact .content ((splitPosition_iff (by decide)).1 h)
    | children h => exact .children ((splitPosition_iff (by decide)).1 h)
    | attributes h read =>
      exact .attributes ((splitPosition_iff (by decide)).1 h) (attributeEntries_isOk_iff.1 ⟨_, read⟩)
    | fetch h read => exact .fetch ((splitPosition_iff (by decide)).1 h) (locationOf_isOk_iff.1 ⟨_, read⟩)
    | control h read => exact .control ((splitPosition_iff (by decide)).1 h) (renderControl_isOk_iff.1 ⟨_, read⟩)
    | repetition h => exact .repetition ((splitPosition_iff (by decide)).1 h)
  · rintro ⟨accepted, hfills⟩
    cases accepted with
    | content written =>
      obtain ⟨c, hc⟩ := hfills (.content written)
      exact ⟨_, .content ((splitPosition_iff (by decide)).2 written) hc⟩
    | children written =>
      obtain ⟨c, hc⟩ := hfills (.children written)
      exact ⟨_, .children ((splitPosition_iff (by decide)).2 written) hc⟩
    | repetition written =>
      obtain ⟨c, hc⟩ := hfills (.repetition written)
      exact ⟨_, .repetition ((splitPosition_iff (by decide)).2 written) hc⟩
    | attributes written h =>
      obtain ⟨values, hvalues⟩ := attributeEntries_isOk_iff.2 h
      exact ⟨_, .attributes ((splitPosition_iff (by decide)).2 written) hvalues⟩
    | fetch written h =>
      obtain ⟨l, hl⟩ := locationOf_isOk_iff.2 h
      exact ⟨_, .fetch ((splitPosition_iff (by decide)).2 written) hl⟩
    | control written h =>
      obtain ⟨c, hc⟩ := renderControl_isOk_iff.2 h
      exact ⟨_, .control ((splitPosition_iff (by decide)).2 written) hc⟩
    | params written h =>
      obtain ⟨p, hp⟩ := Params.ofJson_isOk_iff.2 h
      exact ⟨_, .params ((splitPosition_iff (by decide)).2 written) hp⟩

mutual

/-- A value is a content if its sets of directives hold nothing else. -/
theorem isOk_ofJson_iff : ∀ v : Json, (∃ c, Content.ofJson v = .ok c) ↔ v.Accepts
  | .null => iff_of_true ⟨_, rfl⟩ fun _ h => by cases h
  | .bool _ => iff_of_true ⟨_, rfl⟩ fun _ h => by cases h
  | .number _ => iff_of_true ⟨_, rfl⟩ fun _ h => by cases h
  | .string _ => iff_of_true ⟨_, rfl⟩ fun _ h => by cases h
  | .array items => by
    rw [Json.accepts_array_iff, ← isOk_contentItems_iff items, Content.ofJson]
    exact isOk_map_iff
  | .object entries => by
    rw [Content.ofJson]
    split
    · rename_i set
      rw [Json.accepts_set_iff (Json.any_isDirectiveKey_iff.1 set),
        ← isOk_directiveEntries_iff entries]
      exact isOk_map_iff
    · rename_i plain
      rw [Json.accepts_object_iff (mt Json.any_isDirectiveKey_iff.2 plain),
        ← isOk_contentEntries_iff entries]
      exact isOk_map_iff

theorem isOk_contentItems_iff : ∀ items : List Json,
    (∃ contents, contentItems items = .ok contents) ↔ ∀ item ∈ items, item.Accepts
  | [] => iff_of_true ⟨_, rfl⟩ (List.forall_mem_nil _)
  | item :: rest => by
    rw [List.forall_mem_cons, ← isOk_ofJson_iff item, ← isOk_contentItems_iff rest, contentItems]
    exact isOk_cons_iff

theorem isOk_contentEntries_iff : ∀ entries : List (String × Json),
    (∃ stack, contentEntries entries = .ok stack) ↔ ∀ e ∈ entries, e.2.Accepts
  | [] => iff_of_true ⟨_, rfl⟩ (List.forall_mem_nil _)
  | (key, value) :: rest => by
    rw [List.forall_mem_cons, ← isOk_ofJson_iff value, ← isOk_contentEntries_iff rest,
      contentEntries]
    exact isOk_cons_iff

theorem isOk_directiveEntries_iff : ∀ entries : List (String × Json),
    (∃ found, directiveEntries entries = .ok found) ↔
      ∀ e ∈ entries, Accepted e.1 e.2 ∧ (Fills e.1 → e.2.Accepts)
  | [] => iff_of_true ⟨_, rfl⟩ (List.forall_mem_nil _)
  | (key, value) :: rest => by
    rw [List.forall_mem_cons, ← isOk_ofJson_iff value, ← isOk_directiveEntries_iff rest,
      ← exists_entryRead_iff]
    constructor
    · rintro ⟨found, h⟩
      obtain ⟨e, others, he, hothers, -⟩ := EntryRead.of_cons h
      exact ⟨⟨e, he⟩, others, hothers⟩
    · rintro ⟨⟨e, he⟩, others, hothers⟩
      exact ⟨_, he.cons hothers⟩

end

/-! ## What is kept -/

/-- The name in the key of a directive. -/
def Directive.name : Directive → String
  | .setAttributes .. => "@attr"
  | .content .. => "@content"
  | .children .. => "@children"
  | .fetch .. => "@import"
  | .control _ => "@render"
  | .repetition _ => "@repeat"

mutual

/-- A value and the content that it stands for: nothing is lost, at any depth. -/
inductive Json.StandsFor : Json → Content → Prop
  | null : StandsFor .null (.text "")
  | scalar {v : Json} {text : String} (h : scalarText? v = some text) : StandsFor v (.text text)
  | array {items : List Json} {contents : List Content} (h : List.Forall₂ StandsFor items contents) :
      StandsFor (.array items) (.list contents)
  | object {entries : List (String × Json)} {stack : List (String × Content)} (plain : ¬ IsSet entries)
      (h : List.Forall₂ EntryFor entries stack) : StandsFor (.object entries) (.stack stack)
  | directives {entries : List (String × Json)} {params : Params} {directives : List Directive}
      (set : IsSet entries) (h : SetFor .empty entries params directives) :
      StandsFor (.object entries) (.directives params directives)

/-- An entry of an object and the one of a stack: the key is the same. -/
inductive Json.EntryFor : String × Json → String × Content → Prop
  | mk {key : String} {value : Json} {c : Content} (h : StandsFor value c) :
      EntryFor (key, value) (key, c)

/-- The entries of a set of directives: each is a directive, or gives parameters in place of those
before it. -/
inductive Json.SetFor : Params → List (String × Json) → Params → List Directive → Prop
  | nil (p : Params) : SetFor p [] p []
  | params {p q params : Params} {key : String} {value : Json} {entries : List (String × Json)}
      {directives : List Directive} (written : Written "@params" none key)
      (read : Params.ofJson value = .ok q) (rest : SetFor q entries params directives) :
      SetFor p ((key, value) :: entries) params directives
  | directive {p params : Params} {key : String} {value : Json} {entries : List (String × Json)}
      {d : Directive} {directives : List Directive} {position : Option InsertMode}
      (written : Written d.name position key)
      (canonical : d.key = keyWith d.name (position.getD .replace)) (given : GivenBy d value)
      (rest : SetFor p entries params directives) :
      SetFor p ((key, value) :: entries) params (d :: directives)

/-- A directive and its value. -/
inductive Json.GivenBy : Directive → Json → Prop
  | content (mode : InsertMode) {value : Json} {c : Content} (h : StandsFor value c) :
      GivenBy (.content mode c) value
  | children (mode : InsertMode) {value : Json} {c : Content} (h : StandsFor value c) :
      GivenBy (.children mode c) value
  | repetition {value : Json} {c : Content} (h : StandsFor value c) : GivenBy (.repetition c) value
  | attributes (mode : InsertMode) {entries : List (String × Json)}
      {values : List (String × Option String)}
      (h : List.Forall₂ (fun e a => a = (e.1, scalarText? e.2)) entries values) :
      GivenBy (.setAttributes mode values) (.object entries)
  | fetch (mode : InsertMode) {text : String} {l : ImportLocation}
      (h : ImportLocation.read text = .ok l) : GivenBy (.fetch mode l) (.string text)
  | control {value : Json} {c : RenderControl} (h : renderControl value = .ok c) :
      GivenBy (.control c) value

end

open Json (StandsFor EntryFor SetFor GivenBy)

theorem written_name (d : Directive) {position : Option InsertMode}
    (h : splitPosition key = (d.name, position)) : Written d.name position key := by
  refine (splitPosition_iff ?_).1 h
  cases d <;> simp [Directive.name, Directive.names]

theorem attributeEntry_eq {e : String × Json} {a : String × Option String}
    (h : attributeEntry e = .ok a) : a = (e.1, scalarText? e.2) := by
  obtain ⟨name, value⟩ := e
  cases value with
  | null | bool | number | string => exact (Except.ok.inj h).symm
  | array | object => cases h

theorem givenBy_attributes (mode : InsertMode) {values : List (String × Option String)}
    (h : attributeEntries v = .ok values) : GivenBy (.setAttributes mode values) v := by
  cases v with
  | object entries => exact .attributes mode ((forall₂_of_mapM h).imp fun _ _ => attributeEntry_eq)
  | null | bool | number | string | array => cases h

theorem givenBy_fetch (mode : InsertMode) {l : ImportLocation} (h : locationOf v = .ok l) :
    GivenBy (.fetch mode l) v := by
  cases v with
  | string text => exact .fetch mode h
  | null | bool | number | array | object => cases h

/-- The parameters that hold behind an entry of a set. -/
def DirectiveEntry.paramsOver (start : Params) : DirectiveEntry → Params
  | .params p => p
  | .directive _ => start

mutual

/-- What is read stands for the value it is read of. -/
theorem standsFor_of_ofJson : ∀ (v : Json) {c : Content}, Content.ofJson v = .ok c → v.StandsFor c
  | .null, _, h => Except.ok.inj h ▸ .null
  | .bool _, _, h => Except.ok.inj h ▸ .scalar rfl
  | .number _, _, h => Except.ok.inj h ▸ .scalar rfl
  | .string _, _, h => Except.ok.inj h ▸ .scalar rfl
  | .array items, c, h => by
    rw [Content.ofJson] at h
    obtain ⟨contents, hcontents, h⟩ := bind_eq_ok.1 h
    rw [← pure_eq_ok.1 h]
    exact .array (forall₂_of_contentItems items hcontents)
  | .object entries, c, h => by
    rw [Content.ofJson] at h
    split at h
    · rename_i set
      obtain ⟨found, hfound, h⟩ := bind_eq_ok.1 h
      rw [← pure_eq_ok.1 h]
      exact .directives (Json.any_isDirectiveKey_iff.1 set) (setFor_of_directiveEntries entries .empty hfound)
    · rename_i plain
      obtain ⟨stack, hstack, h⟩ := bind_eq_ok.1 h
      rw [← pure_eq_ok.1 h]
      exact .object (mt Json.any_isDirectiveKey_iff.2 plain) (forall₂_of_contentEntries entries hstack)

theorem forall₂_of_contentItems : ∀ (items : List Json) {contents : List Content},
    contentItems items = .ok contents → List.Forall₂ StandsFor items contents
  | [], _, h => Except.ok.inj h ▸ .nil
  | item :: rest, _, h => by
    rw [contentItems] at h
    obtain ⟨c, hc, h⟩ := bind_eq_ok.1 h
    obtain ⟨others, hothers, h⟩ := bind_eq_ok.1 h
    rw [← pure_eq_ok.1 h]
    exact .cons (standsFor_of_ofJson item hc) (forall₂_of_contentItems rest hothers)

theorem forall₂_of_contentEntries : ∀ (entries : List (String × Json))
    {stack : List (String × Content)}, contentEntries entries = .ok stack →
      List.Forall₂ EntryFor entries stack
  | [], _, h => Except.ok.inj h ▸ .nil
  | (key, value) :: rest, _, h => by
    rw [contentEntries] at h
    obtain ⟨c, hc, h⟩ := bind_eq_ok.1 h
    obtain ⟨others, hothers, h⟩ := bind_eq_ok.1 h
    rw [← pure_eq_ok.1 h]
    exact .cons (.mk (standsFor_of_ofJson value hc)) (forall₂_of_contentEntries rest hothers)

theorem setFor_of_directiveEntries : ∀ (entries : List (String × Json)) (start : Params)
    {found : List DirectiveEntry}, directiveEntries entries = .ok found →
      SetFor start entries (found.foldl DirectiveEntry.paramsOver start) (directivesAmong found)
  | [], start, _, h => Except.ok.inj h ▸ .nil start
  | (key, value) :: rest, start, _, h => by
    obtain ⟨e, others, he, hothers, rfl⟩ := EntryRead.of_cons h
    have hrest := fun start => setFor_of_directiveEntries rest start hothers
    cases he with
    | params hsplit read => exact .params ((splitPosition_iff (by decide)).1 hsplit) read (hrest _)
    | content hsplit read =>
      exact .directive (written_name (.content _ _) hsplit) rfl
        (.content _ (standsFor_of_ofJson value read)) (hrest _)
    | children hsplit read =>
      exact .directive (written_name (.children _ _) hsplit) rfl
        (.children _ (standsFor_of_ofJson value read)) (hrest _)
    | repetition hsplit read =>
      exact .directive (written_name (.repetition _) hsplit) rfl
        (.repetition (standsFor_of_ofJson value read)) (hrest _)
    | attributes hsplit read =>
      exact .directive (written_name (.setAttributes _ _) hsplit) rfl (givenBy_attributes _ read)
        (hrest _)
    | fetch hsplit read =>
      exact .directive (written_name (.fetch _ _) hsplit) rfl (givenBy_fetch _ read) (hrest _)
    | control hsplit read =>
      exact .directive (written_name (.control _) hsplit) rfl (.control read) (hrest _)

end

end MarkupTemplate

import MarkupTemplate.Import.Location
import MarkupTemplate.Proofs.Contexts

/-!
# Locations written as texts

A location prints as the key of its source and, behind a number sign, its part. Reading that text
again is the subject here.

* `ImportSource.read_marked`, `ImportSource.read_cases` — the sources of texts, marked or not.
* `ImportLocation.Readable`, `ImportLocation.readable_of_read` — what every location that was read is
  like.
* `ImportLocation.read_text_of_readable` — its text is read as the location, but that White_Space at
  the end of the place is lost.
* `ImportSource.Spelled`, `ImportLocation.read_spelled` — the ways to write a source share its key.
* `ImportLocation.read_text_iff` — **the main result**: the text of a location is read as the
  location, unless White_Space stood between an unmarked source and the number sign.
* `ImportLocation.text_loose` — that White_Space is kept in the place, and in the key.
-/

namespace MarkupTemplate

open XPath (Begins Finishes)
open Css (Gap trim_gaps)

/-! ## White_Space at the end -/

namespace Text

variable {cs : List Char}

theorem trim_of_begins (h : Begins cs) : trim cs = trimEnd cs := by
  obtain ⟨c, t, rfl, hc⟩ := h
  rw [trim, trimStart, List.dropWhile_cons_of_neg (by simp [hc])]

theorem trimEnd_ne_nil (h : Begins cs) : trimEnd cs ≠ [] := by
  obtain ⟨c, t, rfl, hc⟩ := h
  intro hnil
  have hblank := List.rdropWhile_eq_nil_iff.1 hnil c List.mem_cons_self
  rw [hc] at hblank
  cases hblank

/-- White_Space at the end of the last part of a text is that at the end of the text. -/
theorem trimEnd_append (h : Begins cs) (head : List Char) :
    trimEnd (head ++ cs) = head ++ trimEnd cs := by
  have hne : (cs.reverse.dropWhile isBlank).isEmpty = false := by
    have := trimEnd_ne_nil h
    rw [trimEnd, dropEndWhile] at this
    simpa using this
  rw [trimEnd, trimEnd, dropEndWhile, dropEndWhile, List.reverse_append,
    List.dropWhile_append, hne]
  simp

theorem trimEnd_blanks {gap : List Char} (h : ∀ c ∈ gap, isBlank c = true) (cs : List Char) :
    trimEnd (cs ++ gap) = trimEnd cs := by
  rw [trimEnd, trimEnd, dropEndWhile, dropEndWhile, List.reverse_append,
    List.dropWhile_append_of_pos fun c hc => h c (List.mem_reverse.1 hc)]

theorem trimEnd_eq_self (hb : Begins cs) (hf : Finishes cs) : trimEnd cs = cs := by
  rw [← trim_of_begins hb, XPath.trim_eq_self hb hf]

/-- White_Space in front of a text does not count. -/
theorem trim_behind {gap : List Char} (h : ∀ c ∈ gap, isBlank c = true) (hb : Begins cs) :
    trim (gap ++ cs) = trimEnd cs := by
  rw [← trim_of_begins hb, trim, trim, trimStart, List.dropWhile_append_of_pos h, trimStart]

/-- The case of letters does not count for White_Space. -/
theorem isBlank_of_toLower {c : Char} (h : isBlank c.toLower = false) : isBlank c = false := by
  have hsolid : (!isBlank c) = true :=
    Css.of_toLower (P := fun c => !isBlank c) (by decide) (by rw [h]; rfl)
  simpa using hsolid

theorem begins_of_lower (h : Begins (lower cs)) : Begins cs := by
  obtain ⟨c, t, heq, hc⟩ := h
  obtain ⟨d, w, rfl, rfl, -⟩ := List.map_eq_cons_iff.1 heq
  exact ⟨d, w, rfl, isBlank_of_toLower hc⟩

theorem finishes_of_lower (h : Finishes (lower cs)) : Finishes cs := by
  obtain ⟨t, c, heq, hc⟩ := h
  obtain ⟨u, w, rfl, -, hw⟩ := List.map_eq_append_iff.1 heq
  obtain ⟨d, w, rfl, rfl, hnil⟩ := List.map_eq_cons_iff.1 hw
  obtain rfl := List.map_eq_nil_iff.1 hnil
  exact ⟨u, d, rfl, isBlank_of_toLower hc⟩

end Text

/-! ## Sources -/

namespace ImportSource

variable {s : ImportSource} {head cs body : List Char}

/-- What the text of a source begins with. -/
def mark : ImportSource → List Char
  | .file _ => "file:".toList
  | .address _ => "url:".toList

/-- A text that begins with the mark of a kind of sources, in any case. -/
def isMarked (body : List Char) : Bool :=
  "url:".toList.isPrefixOf (Text.lower body) || "file:".toList.isPrefixOf (Text.lower body)

/-- A text that begins as the addresses of the web do, in any case. -/
def isWebAddress (body : List Char) : Bool :=
  "http://".toList.isPrefixOf (Text.lower body) || "https://".toList.isPrefixOf (Text.lower body)

/-- The source of a place without a mark in front of it. -/
def unmarked (place : String) : ImportSource :=
  if isWebAddress place.toList then .address place else .file place

/-- The source without White_Space at the end of its place. -/
def tidied : ImportSource → ImportSource
  | .file path => .file (String.ofList (Text.trimEnd path.toList))
  | .address url => .address (String.ofList (Text.trimEnd url.toList))

theorem toList_key (s : ImportSource) : s.key.toList = s.mark ++ s.place.toList := by
  cases s <;> simp [key, mark, place]

theorem place_tidied (s : ImportSource) :
    s.tidied.place.toList = Text.trimEnd s.place.toList := by
  cases s <;> exact String.toList_ofList ..

theorem lower_mark (s : ImportSource) : Text.lower s.mark = s.tidied.mark := by
  cases s with
  | file path => exact (by decide : Text.lower "file:".toList = "file:".toList)
  | address url => exact (by decide : Text.lower "url:".toList = "url:".toList)

theorem mark_begins (s : ImportSource) : Begins s.mark := by
  cases s with
  | file path => exact ⟨'f', "ile:".toList, rfl, by decide⟩
  | address url => exact ⟨'u', "rl:".toList, rfl, by decide⟩

theorem not_mem_mark (s : ImportSource) : '#' ∉ s.mark := by
  cases s with
  | file path => exact (by decide : '#' ∉ "file:".toList)
  | address url => exact (by decide : '#' ∉ "url:".toList)

/-- **A marked source** is of the kind of its mark, and White_Space around its place does not count. -/
theorem read_marked (hhead : Text.lower head = s.mark) (hplace : s.place.toList = Text.trim cs) :
    read (head ++ cs) = s := by
  have hlower : Text.lower (head ++ cs) = s.mark ++ Text.lower cs := by
    rw [Text.lower, List.map_append, ← Text.lower, hhead]
    rfl
  have hlength : head.length = s.mark.length := by
    rw [← hhead, Text.lower, List.length_map]
  have hplace' : String.ofList (Text.trim cs) = s.place := by
    rw [← hplace, String.ofList_toList]
  unfold read
  rw [hlower]
  cases s with
  | file path =>
    have hfive : head.length = 5 := hlength
    rw [if_neg (by simp [mark]), if_pos (by simp [mark]), List.drop_left' hfive, hplace']
    rfl
  | address url =>
    have hfour : head.length = 4 := hlength
    rw [if_pos (by simp [mark]), List.drop_left' hfour, hplace']
    rfl

/-- Without a mark the text is the place. -/
theorem read_unmarked (h : isMarked body = false) : read body = unmarked (String.ofList body) := by
  rw [isMarked, Bool.or_eq_false_iff] at h
  have hbody : (String.ofList body).toList = body := String.toList_ofList ..
  unfold read
  dsimp only
  rw [h.1, h.2, unmarked, isWebAddress, hbody]
  rfl

theorem place_unmarked (place : String) : (unmarked place).place = place := by
  rw [unmarked]
  split <;> rfl

/-- What begins with a mark in lower case is a mark and a place behind it. -/
theorem exists_of_isPrefixOf {m : List Char} (h : m.isPrefixOf (Text.lower body) = true) :
    ∃ head cs, body = head ++ cs ∧ Text.lower head = m := by
  obtain ⟨t, ht⟩ := List.isPrefixOf_iff_prefix.1 h
  obtain ⟨head, cs, rfl, hhead, -⟩ := List.map_eq_append_iff.1 ht.symm
  exact ⟨head, cs, rfl, hhead⟩

/-- A text is a place behind a mark, or it is a place. -/
theorem read_cases (body : List Char) :
    isMarked body = true ∧ (∃ cs, cs <:+ body ∧ (read body).place.toList = Text.trim cs) ∨
      isMarked body = false ∧ (read body).place.toList = body := by
  cases hmarked : isMarked body with
  | true =>
    refine .inl ⟨rfl, ?_⟩
    rw [isMarked, Bool.or_eq_true] at hmarked
    rcases hmarked with h | h
    · obtain ⟨head, cs, rfl, hhead⟩ := exists_of_isPrefixOf h
      have hread : read (head ++ cs) = .address (String.ofList (Text.trim cs)) :=
        read_marked hhead (String.toList_ofList ..)
      rw [hread]
      exact ⟨cs, List.suffix_append .., String.toList_ofList ..⟩
    · obtain ⟨head, cs, rfl, hhead⟩ := exists_of_isPrefixOf h
      have hread : read (head ++ cs) = .file (String.ofList (Text.trim cs)) :=
        read_marked hhead (String.toList_ofList ..)
      rw [hread]
      exact ⟨cs, List.suffix_append .., String.toList_ofList ..⟩
  | false =>
    refine .inr ⟨rfl, ?_⟩
    rw [read_unmarked hmarked, place_unmarked, String.toList_ofList]

/-- The ways to write a source: with its mark in any case and with White_Space around the place, or
without a mark where none has to be there. -/
inductive Spelled : ImportSource → List Char → Prop
  | marked (s : ImportSource) (head : List Char) (before after : Gap)
      (hhead : Text.lower head = s.mark) :
      Spelled s (head ++ (before.text ++ (s.place.toList ++ after.text)))
  | unmarked (place : String) (h : isMarked place.toList = false) :
      Spelled (unmarked place) place.toList

/-- The place can be written as it is: no White_Space is around it, and no number sign is in it. -/
structure IsPlain (s : ImportSource) : Prop where
  begins : Begins s.place.toList
  finishes : Finishes s.place.toList
  no_sign : '#' ∉ s.place.toList

/-- **Every way to write a source is read as the source.** -/
theorem Spelled.read_eq (h : s.Spelled body) (plain : s.IsPlain) : read body = s := by
  cases h with
  | marked _ head before after hhead =>
    exact read_marked hhead (trim_gaps before.isBlank after.isBlank plain.begins plain.finishes).symm
  | unmarked place hplace => rw [read_unmarked hplace, String.ofList_toList]

theorem Spelled.begins (h : s.Spelled body) (plain : s.IsPlain) : Begins body := by
  cases h with
  | marked _ head before after hhead =>
    exact (Text.begins_of_lower (hhead ▸ s.mark_begins)).append _
  | unmarked place hplace => exact place_unmarked place ▸ plain.begins

theorem Spelled.not_mem (h : s.Spelled body) (plain : s.IsPlain) : '#' ∉ body := by
  cases h with
  | marked _ head before after hhead =>
    have hhead' : '#' ∉ head := fun hmem => s.not_mem_mark (hhead ▸ List.mem_map_of_mem hmem)
    have hblank : Text.isBlank '#' = false := by decide
    have hbefore : '#' ∉ before.text := fun hmem => by simpa [hblank] using before.isBlank _ hmem
    have hafter : '#' ∉ after.text := fun hmem => by simpa [hblank] using after.isBlank _ hmem
    simp [hhead', hbefore, hafter, plain.no_sign]
  | unmarked place hplace => exact place_unmarked place ▸ plain.no_sign

/-- A source that nothing follows is written without the White_Space at the end. -/
theorem Spelled.trimEnd (h : s.Spelled body) (plain : s.IsPlain) :
    s.Spelled (Text.trimEnd body) := by
  have hself := Text.trimEnd_eq_self plain.begins plain.finishes
  cases h with
  | marked _ head before after hhead =>
    rw [← List.append_assoc, Text.trimEnd_append (plain.begins.append _),
      Text.trimEnd_blanks after.isBlank, hself, List.append_assoc]
    exact (List.append_nil s.place.toList) ▸ .marked s head before .none hhead
  | unmarked place hplace =>
    rw [place_unmarked] at hself
    exact hself.symm ▸ .unmarked place hplace

end ImportSource

/-! ## Locations -/

namespace ImportLocation

variable {l : ImportLocation} {text : String} {body rest : List Char}

/-- The location without White_Space at the end of its place. -/
def tidied (l : ImportLocation) : ImportLocation :=
  { l with source := l.source.tidied }

/-- The part that a text behind the number sign stands for. -/
def fragmentOf (rest : List Char) : Option String :=
  if (Text.trim rest).isEmpty then none else some (String.ofList (Text.trim rest))

/-- The location of a source with a part, if the source has a place. -/
def located (cs : List Char) (source : ImportSource) (fragment : Option String) :
    Except Error ImportLocation :=
  if source.place.isEmpty then
    .error ⟨.importing, "Import location '" ++ String.ofList cs ++ "' names no source"⟩
  else .ok ⟨source, fragment⟩

theorem located_eq_ok {cs : List Char} {source : ImportSource} {fragment : Option String} :
    located cs source fragment = .ok l ↔ source.place ≠ "" ∧ l = ⟨source, fragment⟩ := by
  rw [located]
  split
  · rename_i hempty
    refine ⟨fun h => (by cases h), fun h => absurd ?_ h.1⟩
    simpa using hempty
  · rename_i hplace
    refine ⟨fun h => ⟨by simpa using hplace, (Except.ok.inj h).symm⟩, fun h => ?_⟩
    rw [h.2]

/-- A text without a number sign is a source. -/
theorem read_whole (htrim : Text.trim text.toList = body) (hsign : '#' ∉ body) :
    read text = located body (ImportSource.read body) none := by
  unfold read
  dsimp only
  rw [htrim, Text.cutAt?_eq_none hsign]
  rfl

/-- In a text with a number sign, the source is in front of the first one and the part behind it. -/
theorem read_cut (htrim : Text.trim text.toList = body ++ '#' :: rest) (hsign : '#' ∉ body) :
    read text = located (body ++ '#' :: rest) (ImportSource.read body) (fragmentOf rest) := by
  unfold read
  dsimp only
  rw [htrim, Text.cutAt?_append hsign, located, fragmentOf]
  simp

/-- **What is read**: the source is the whole text or what is in front of the first number sign, and it
has a place. -/
theorem read_eq_ok : read text = .ok l ↔
    ∃ body, '#' ∉ body ∧ (ImportSource.read body).place ≠ "" ∧
      (Text.trim text.toList = body ∧ l = ⟨ImportSource.read body, none⟩ ∨
        ∃ rest, Text.trim text.toList = body ++ '#' :: rest ∧
          l = ⟨ImportSource.read body, fragmentOf rest⟩) := by
  constructor
  · intro h
    by_cases hmem : '#' ∈ Text.trim text.toList
    · obtain ⟨body, rest, htrim, hsign⟩ := List.eq_append_cons_of_mem hmem
      rw [read_cut htrim hsign, located_eq_ok] at h
      exact ⟨body, hsign, h.1, .inr ⟨rest, htrim, h.2⟩⟩
    · rw [read_whole rfl hmem, located_eq_ok] at h
      exact ⟨_, hmem, h.1, .inl ⟨rfl, h.2⟩⟩
  · rintro ⟨body, hsign, hplace, ⟨htrim, hl⟩ | ⟨rest, htrim, hl⟩⟩
    · rw [read_whole htrim hsign, located_eq_ok]
      exact ⟨hplace, hl⟩
    · rw [read_cut htrim hsign, located_eq_ok]
      exact ⟨hplace, hl⟩

/-! ## Texts of locations -/

/-- What a location that was read is like: its place begins with no blank and has no number sign in
it, and its part has no blanks around it. The place may end with blanks. -/
structure Readable (l : ImportLocation) : Prop where
  begins : Begins l.source.place.toList
  no_sign : '#' ∉ l.source.place.toList
  fragment : ∀ f ∈ l.fragment, Begins f.toList ∧ Finishes f.toList

theorem fragmentOf_ends {f : String} (h : f ∈ fragmentOf rest) :
    Begins f.toList ∧ Finishes f.toList := by
  rw [fragmentOf, Option.mem_def, Option.ite_none_left_eq_some] at h
  obtain ⟨hne, hf⟩ := h
  obtain rfl := Option.some.inj hf
  rw [String.toList_ofList]
  exact Selector.ends_trim (by simpa using hne)

/-- The place of a source, out of a text that begins with no blank. -/
theorem place_begins (hb : Begins body) (hplace : (ImportSource.read body).place ≠ "") :
    Begins (ImportSource.read body).place.toList := by
  have hne : (ImportSource.read body).place.toList ≠ [] := by simpa using hplace
  rcases ImportSource.read_cases body with ⟨-, cs, -, hcs⟩ | ⟨-, hbody⟩
  · rw [hcs] at hne ⊢
    exact (Selector.ends_trim hne).1
  · rwa [hbody]

/-- The place finishes with no blank if there is a mark, or if the text does. -/
theorem place_finishes (hplace : (ImportSource.read body).place ≠ "") :
    Finishes (ImportSource.read body).place.toList ↔
      (ImportSource.isMarked body = false → Finishes body) := by
  have hne : (ImportSource.read body).place.toList ≠ [] := by simpa using hplace
  rcases ImportSource.read_cases body with ⟨hmarked, cs, -, hcs⟩ | ⟨hmarked, hbody⟩
  · rw [hcs] at hne ⊢
    simp [hmarked, (Selector.ends_trim hne).2]
  · simp [hbody, hmarked]

theorem not_mem_place (h : '#' ∉ body) : '#' ∉ (ImportSource.read body).place.toList := by
  rcases ImportSource.read_cases body with ⟨-, cs, hsuffix, hcs⟩ | ⟨-, hbody⟩
  · intro hmem
    rw [hcs] at hmem
    have htrimmed : Text.trim cs <:+: cs :=
      (List.rdropWhile_prefix _ _).isInfix.trans (List.dropWhile_suffix _).isInfix
    exact h (hsuffix.subset (htrimmed.subset hmem))
  · rwa [hbody]

/-- What is read has a source, so there is something in front of the number sign. -/
theorem begins_of_place (text : String) (hpre : body <+: Text.trim text.toList)
    (hplace : (ImportSource.read body).place ≠ "") : Begins body := by
  have hne : body ≠ [] := by
    rintro rfl
    exact hplace rfl
  have htrim : Text.trim text.toList ≠ [] := fun hnil =>
    hne (List.prefix_nil.1 (hnil ▸ hpre))
  exact Selector.begins_of_isPrefix (Selector.ends_trim htrim).1 hpre hne

theorem readable_of_read (h : read text = .ok l) : l.Readable := by
  obtain ⟨body, hsign, hplace, ⟨htrim, rfl⟩ | ⟨rest, htrim, rfl⟩⟩ := read_eq_ok.1 h
  · have hbegins : Begins body := begins_of_place text (by rw [htrim]) hplace
    exact ⟨place_begins hbegins hplace, not_mem_place hsign, by simp⟩
  · have hbegins : Begins body :=
      begins_of_place text (by rw [htrim]; exact List.prefix_append ..) hplace
    exact ⟨place_begins hbegins hplace, not_mem_place hsign, fun f hf => fragmentOf_ends hf⟩

/-- **The text of a location is read as the location**, but that the blanks at the end of its place
are lost. -/
theorem read_text_of_readable (h : l.Readable) : read l.text = .ok l.tidied := by
  obtain ⟨source, fragment⟩ := l
  have hbegins : Begins source.place.toList := h.begins
  have hsign : '#' ∉ source.mark ++ source.place.toList := fun hmem =>
    (List.mem_append.1 hmem).elim source.not_mem_mark h.no_sign
  have htidied : source.tidied.place ≠ "" := by
    rw [← String.toList_inj.ne, ImportSource.place_tidied]
    exact Text.trimEnd_ne_nil hbegins
  have hread {cs : List Char} (hcs : Text.trim cs = Text.trimEnd source.place.toList) :
      ImportSource.read (source.mark ++ cs) = source.tidied :=
    ImportSource.read_marked source.lower_mark ((ImportSource.place_tidied _).trans hcs.symm)
  cases fragment with
  | none =>
    have htrim : Text.trim (text ⟨source, none⟩).toList =
        source.mark ++ Text.trimEnd source.place.toList := by
      rw [text, key, ImportSource.toList_key, Text.trim_of_begins (source.mark_begins.append _),
        Text.trimEnd_append hbegins]
    have hsign' : '#' ∉ source.mark ++ Text.trimEnd source.place.toList := fun hmem =>
      hsign (((List.prefix_append_right_inj _).2 (List.rdropWhile_prefix _ _)).subset hmem)
    have hself := hread (XPath.trim_eq_self
      (Selector.begins_trimEnd hbegins (Text.trimEnd_ne_nil hbegins))
      (Selector.finishes_trimEnd (Text.trimEnd_ne_nil hbegins)))
    rw [read_whole htrim hsign', located_eq_ok, hself]
    exact ⟨htidied, rfl⟩
  | some f =>
    obtain ⟨hf, hf'⟩ := h.fragment f rfl
    have htext : (text ⟨source, some f⟩).toList =
        (source.mark ++ source.place.toList) ++ '#' :: f.toList := by
      rw [text, key, String.toList_append, String.toList_append, ImportSource.toList_key]
      simp
    have htrim : Text.trim (text ⟨source, some f⟩).toList =
        (source.mark ++ source.place.toList) ++ '#' :: f.toList := by
      rw [htext]
      exact XPath.trim_eq_self ((source.mark_begins.append _).append _)
        ((hf'.cons '#').append _)
    have hself := hread (Text.trim_of_begins hbegins)
    have hfragment : fragmentOf f.toList = some f := by
      rw [fragmentOf, XPath.trim_eq_self hf hf', String.ofList_toList]
      obtain ⟨c, t, heq, -⟩ := hf
      rw [heq]
      rfl
    rw [read_cut htrim hsign, located_eq_ok, hself, hfragment]
    exact ⟨htidied, rfl⟩

theorem tidied_eq_self_iff (h : Begins l.source.place.toList) :
    l.tidied = l ↔ Finishes l.source.place.toList := by
  have hplace : l.tidied = l ↔ Text.trimEnd l.source.place.toList = l.source.place.toList := by
    obtain ⟨source, fragment⟩ := l
    rw [← ImportSource.place_tidied, String.toList_inj, tidied]
    cases source <;> simp [ImportSource.tidied, ImportSource.place]
  rw [hplace]
  constructor
  · intro heq
    exact heq ▸ Selector.finishes_trimEnd (Text.trimEnd_ne_nil h)
  · intro hf
    rw [← Text.trim_of_begins h, XPath.trim_eq_self h hf]

/-- White_Space stands between a source without a mark and the first number sign. -/
def IsLoose (text : String) : Prop :=
  ∃ body rest, Text.trim text.toList = body ++ '#' :: rest ∧ '#' ∉ body ∧
    ImportSource.isMarked body = false ∧ ¬ Finishes body

theorem append_sign_inj {body' rest' : List Char} (h : '#' ∉ body) (h' : '#' ∉ body')
    (heq : body ++ '#' :: rest = body' ++ '#' :: rest') : body = body' := by
  have hcut := Text.cutAt?_append h rest
  rw [heq, Text.cutAt?_append h'] at hcut
  exact (Prod.mk.inj (Option.some.inj hcut)).1.symm

/-- The place of a location that was read ends with White_Space just if the text is loose. -/
theorem finishes_iff (h : read text = .ok l) :
    Finishes l.source.place.toList ↔ ¬ IsLoose text := by
  obtain ⟨body, hsign, hplace, ⟨htrim, rfl⟩ | ⟨rest, htrim, rfl⟩⟩ := read_eq_ok.1 h
  · have hne : Text.trim text.toList ≠ [] := by
      intro hnil
      rw [← htrim, hnil] at hplace
      exact hplace rfl
    have hloose : ¬ IsLoose text := by
      rintro ⟨body', rest, htrim', -⟩
      exact hsign (htrim ▸ htrim' ▸ List.mem_append_right _ List.mem_cons_self)
    rw [place_finishes hplace]
    exact ⟨fun _ => hloose, fun _ _ => htrim ▸ (Selector.ends_trim hne).2⟩
  · rw [place_finishes hplace]
    constructor
    · rintro hfinishes ⟨body', rest', htrim', hsign', hmarked, hnot⟩
      obtain rfl := append_sign_inj hsign hsign' (htrim.symm.trans htrim')
      exact hnot (hfinishes hmarked)
    · intro hloose hmarked
      by_contra hnot
      exact hloose ⟨body, rest, htrim, hsign, hmarked, hnot⟩

/-- Whatever follows it behind a number sign, a source that is written in one of its ways is read. -/
theorem read_spelled {source : ImportSource} (plain : source.IsPlain) (h : source.Spelled body)
    (before : Gap) (hrest : (∀ c ∈ rest, Text.isBlank c = true) ∨ rest.head? = some '#') :
    ∃ fragment, read (String.ofList (before.text ++ (body ++ rest))) = .ok ⟨source, fragment⟩ := by
  have hplace : source.place ≠ "" := by
    obtain ⟨c, t, heq, -⟩ := plain.begins
    rw [← String.toList_inj.ne, heq]
    simp
  have htrim : Text.trim (String.ofList (before.text ++ (body ++ rest))).toList =
      Text.trimEnd (body ++ rest) := by
    rw [String.toList_ofList]
    exact Text.trim_behind before.isBlank ((h.begins plain).append rest)
  rcases hrest with hblank | hsign
  · rw [Text.trimEnd_blanks hblank] at htrim
    have hread := (h.trimEnd plain).read_eq plain
    refine ⟨none, ?_⟩
    rw [read_whole htrim ((h.trimEnd plain).not_mem plain), hread]
    exact located_eq_ok.2 ⟨hplace, rfl⟩
  · obtain ⟨part, rfl⟩ : ∃ part, rest = '#' :: part := by
      cases rest with
      | nil => cases hsign
      | cons c part => exact ⟨part, by rw [Option.some.inj hsign]⟩
    have hbegins : Begins ('#' :: part) := ⟨'#', part, rfl, by decide⟩
    obtain ⟨c, part', heq⟩ := List.exists_cons_of_ne_nil (Text.trimEnd_ne_nil hbegins)
    obtain ⟨rfl, -⟩ : c = '#' ∧ part' <+: part :=
      List.cons_prefix_cons.1 (heq ▸ List.rdropWhile_prefix Text.isBlank ('#' :: part))
    rw [Text.trimEnd_append hbegins, heq] at htrim
    refine ⟨fragmentOf part', ?_⟩
    rw [read_cut htrim (h.not_mem plain), h.read_eq plain]
    exact located_eq_ok.2 ⟨hplace, rfl⟩

/-- **The text of a location is read as the location**, unless that was read of a text that is loose:
then the text of the location is read as the one without the blanks. The other ways to write its source,
with and without its mark and with White_Space anywhere but between a source without a mark and the
number sign, share its key. -/
theorem read_text_iff (h : read text = .ok l) :
    read l.text = .ok l.tidied ∧ (read l.text = .ok l ↔ ¬ IsLoose text) ∧
      ∀ body, l.source.IsPlain → l.source.Spelled body → ∀ (before : Gap) (rest : List Char),
        (∀ c ∈ rest, Text.isBlank c = true) ∨ rest.head? = some '#' → ∃ l',
          read (String.ofList (before.text ++ (body ++ rest))) = .ok l' ∧ l'.key = l.key := by
  have readable := readable_of_read h
  have hread := read_text_of_readable readable
  refine ⟨hread, ?_, fun body plain spelled before rest hrest => ?_⟩
  · rw [hread, Except.ok.injEq, tidied_eq_self_iff readable.begins, finishes_iff h]
  · obtain ⟨fragment, hspelled⟩ := read_spelled plain spelled before hrest
    exact ⟨_, hspelled, rfl⟩

/-- The location `file:a.html#nav`. -/
def navigation : ImportLocation :=
  ⟨.file "a.html", some "nav"⟩

/-- The file is written with and without its mark, with blanks. -/
theorem read_text_iff_navigation :
    read " FILE: a.html # nav" = .ok navigation ∧ read navigation.text = .ok navigation ∧
      ∃ l, read " a.html#x" = .ok l ∧ l.key = navigation.key := by
  have hfile : read " FILE: a.html # nav" = .ok navigation := by decide
  obtain ⟨htext, -, hspelled⟩ := read_text_iff hfile
  have hplain : navigation.source.IsPlain := by
    refine ⟨⟨'a', ".html".toList, rfl, by decide⟩, ⟨"a.htm".toList, 'l', rfl, by decide⟩, by decide⟩
  have hunmarked : navigation.source.Spelled "a.html".toList := .unmarked "a.html" (by decide)
  exact ⟨hfile, htext, hspelled _ hplain hunmarked .space "#x".toList (.inr rfl)⟩

/-- A blank between a source without a mark and the number sign becomes part of the place, and so of the
key. It is lost when the text of the location is read. -/
theorem text_loose : ∃ l l', read "a.html #nav" = .ok l ∧ read l.text = .ok l' ∧
    l'.source ≠ l.source ∧ l.key = "file:a.html " ∧ l'.key = "file:a.html" :=
  ⟨⟨.file "a.html ", some "nav"⟩, navigation, by decide, by decide, by decide, by decide, by decide⟩

end ImportLocation

end MarkupTemplate

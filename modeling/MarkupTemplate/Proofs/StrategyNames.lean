import Mathlib.Logic.Relation
import MarkupTemplate.Proofs.Spellings
import MarkupTemplate.Repeat.Strategy

/-!
# The names of a strategy

A strategy is written as names between commas. What the names say together is told without the order
in which they are read.

* `RepeatStrategy.Name`, `RepeatStrategy.name?` — what a single name says.
* `RepeatStrategy.Flags.ofNames` — what names say together; `RepeatStrategy.foldl_say`.
* `RepeatStrategy.read_eq_ok_iff` — a text is read if it consists of names, as what they say.
* `RepeatStrategy.read_congr` — which changes to the names do not count.
* `RepeatStrategy.Reworded` — other ways to write the same names.
* `RepeatStrategy.read_reworded` — **the main result**: a strategy is read from its text, and
  rewording does not change what is read.
-/

namespace MarkupTemplate

/-! ## Texts between commas -/

namespace Text

variable {p : Char → Bool} {f : Char → Char} {separator : Char}

/-- Characters that are no separators may be left out before or after a text is cut. -/
theorem splitOn_filter (h : p separator = true) (cs : List Char) :
    splitOn separator (cs.filter p) = (splitOn separator cs).map (List.filter p) := by
  induction cs with
  | nil => rfl
  | cons c cs ih =>
    obtain ⟨piece, pieces, hs⟩ := List.exists_cons_of_ne_nil (splitOn_ne_nil separator cs)
    rw [hs] at ih
    by_cases hc : c = separator
    · subst hc
      simp [splitOn, h, ih, hs]
    · by_cases hp : p c = true <;> simp [splitOn, hc, hp, ih, hs]

/-- Characters may be changed before or after a text is cut, if no others become separators. -/
theorem splitOn_map (h : ∀ c, f c = separator ↔ c = separator) (cs : List Char) :
    splitOn separator (cs.map f) = (splitOn separator cs).map (List.map f) := by
  induction cs with
  | nil => rfl
  | cons c cs ih =>
    obtain ⟨piece, pieces, hs⟩ := List.exists_cons_of_ne_nil (splitOn_ne_nil separator cs)
    rw [hs] at ih
    by_cases hc : c = separator <;> simp [splitOn, h, hc, ih, hs]

/-- The case of letters does not count for commas. -/
theorem toLower_eq_comma_iff (c : Char) : c.toLower = ',' ↔ c = ',' := by
  refine ⟨fun h => Classical.byContradiction fun hc => ?_, ?_⟩
  · have hlower := Css.toLower_induction (c := c) (P := fun c => c != ',') (by decide) (by simpa)
    simp [h] at hlower
  · rintro rfl
    decide

end Text

namespace Number

theorem ofDigits_toDigits (n : Nat) : ofDigits (Nat.toDigits 10 n) = n := by
  have hvalue := Nat.ofDigitChars_toDigits (b := 10) (n := n) (by decide) (by decide)
  simpa [ofDigits, Nat.ofDigitChars] using hvalue

theorem isNumeral_toDigits (n : Nat) : Css.IsNumeral (Nat.toDigits 10 n) :=
  ⟨Nat.toDigits_ne_nil, fun _ => Text.isDigit_of_mem_toDigits⟩

/-- A number of 64 bits is read from its digits. -/
theorem readWord?_toDigits {n : Nat} (h : n < 2 ^ 64) : readWord? (Nat.toDigits 10 n) = some n := by
  have hnumeral := isNumeral_toDigits n
  have hread := Css.readDigits?_eq_some.2 ⟨hnumeral, ofDigits_toDigits n⟩
  obtain ⟨c, cs, heq⟩ := List.exists_cons_of_ne_nil hnumeral.1
  rw [heq] at hnumeral hread ⊢
  rw [readWord?, hread, Option.filter_some, if_pos (by simpa using h)]
  exact fun _ hplus => hnumeral.head.1 (List.cons.inj hplus).1

end Number

namespace RepeatStrategy

variable {s t source : String} {strategy : RepeatStrategy} {token : List Char} {name : Name}

/-! ## Names -/

/-- What a single name says. -/
inductive Name where
  | last
  | first
  | middle
  | all
  | left
  | alternate
  | simple
  | once
  | shuffle
  | nth (number : Nat)
deriving DecidableEq

namespace Name

/-- How a name is written. -/
def text : Name → List Char
  | .last => "repeat-last".toList
  | .first => "repeat-first".toList
  | .middle => "repeat-middle".toList
  | .all => "repeat-all".toList
  | .left => "left".toList
  | .alternate => "alternate".toList
  | .simple => "simple".toList
  | .once => "once".toList
  | .shuffle => "shuffle-data".toList
  | .nth n => "repeat-nth(".toList ++ (Nat.toDigits 10 n ++ [')'])

/-- The names that are words. -/
def words : List Name :=
  [.last, .first, .middle, .all, .left, .alternate, .simple, .once, .shuffle]

/-- The name says how a walk goes on at an end. -/
def isDirection : Name → Bool
  | .alternate | .simple => true
  | _ => false

/-- The number that a name says. -/
def number? : Name → Option Nat
  | .nth n => some n
  | _ => none

/-- The name says a number. -/
def isNumber (name : Name) : Bool :=
  name.number?.isSome

end Name

/-- The name that a number makes with the words around it. -/
def numbered? (token : List Char) : Option Name :=
  (Text.dropHead? "repeat-nth(".toList token).bind fun rest =>
    if rest.getLast? = some ')' then
      ((Number.readWord? rest.dropLast).filter (0 < ·)).map .nth
    else none

theorem numbered?_eq_some : numbered? token = some name ↔ ∃ digits n,
    "repeat-nth(".toList ++ (digits ++ [')']) = token ∧ Number.readWord? digits = some n ∧
      0 < n ∧ .nth n = name := by
  simp only [numbered?, Option.bind_eq_some_iff, Text.dropHead?_eq_some,
    Option.ite_none_right_eq_some, Option.map_eq_some_iff, Option.filter_eq_some_iff,
    decide_eq_true_eq]
  constructor
  · rintro ⟨rest, rfl, hlast, n, ⟨hread, hn⟩, rfl⟩
    obtain ⟨digits, rfl⟩ := List.getLast?_eq_some_iff.1 hlast
    rw [List.dropLast_concat] at hread
    exact ⟨digits, n, rfl, hread, hn, rfl⟩
  · rintro ⟨digits, n, rfl, hread, hn, rfl⟩
    exact ⟨_, rfl, List.getLast?_concat, n, ⟨by rwa [List.dropLast_concat], hn⟩, rfl⟩

/-- The name that a token is, if it is one. -/
def name? (token : List Char) : Option Name :=
  (Name.words.find? fun name => name.text == token).or (numbered? token)

/-- The flags after one more name. -/
def Flags.say (f : Flags) : Name → Flags
  | .last => f
  | .first => { f with first := true }
  | .middle => { f with middle := true }
  | .all => { f with all := true }
  | .left => { f with left := true }
  | .alternate => { f with alternate := true }
  | .simple => { f with alternate := false }
  | .once => { f with once := true }
  | .shuffle => { f with shuffle := true }
  | .nth n => { f with nth := some n }

theorem mem_words_of_find? (h : (Name.words.find? fun name => name.text == token) = some name) :
    name ∈ Name.words ∧ name.text = token :=
  ⟨List.mem_of_find?_eq_some h, beq_iff_eq.1 (List.find?_some h :)⟩

/-- A token adds what its name says, and one without a name is an error. -/
theorem toOption_add (source : String) (f : Flags) (token : List Char) :
    (Flags.add source f token).toOption = (name? token).map f.say := by
  cases hword : Name.words.find? fun name => name.text == token with
  | some name =>
    rw [name?, hword, Option.some_or]
    obtain ⟨hmem, rfl⟩ := mem_words_of_find? hword
    fin_cases hmem <;> rfl
  | none =>
    have hwords (name : Name) (h : name ∈ Name.words) (word : String)
        (hword' : name.text = word.toList) : String.ofList token ≠ word := by
      rintro rfl
      have := List.find?_eq_none.1 hword name h
      simp [hword'] at this
    rw [name?, hword, Option.none_or, numbered?, Flags.add]
    simp only [hwords .last (by decide) _ rfl, hwords .first (by decide) _ rfl,
      hwords .middle (by decide) _ rfl, hwords .all (by decide) _ rfl,
      hwords .left (by decide) _ rfl, hwords .alternate (by decide) _ rfl,
      hwords .simple (by decide) _ rfl, hwords .once (by decide) _ rfl,
      hwords .shuffle (by decide) _ rfl, if_false]
    cases Text.dropHead? "repeat-nth(".toList token with
    | none => rfl
    | some rest =>
      by_cases hlast : rest.getLast? = some ')'
      · simp only [hlast, if_true, Option.bind_some]
        cases (Number.readWord? rest.dropLast).filter (0 < ·) <;> rfl
      · simp [hlast, Except.toOption]

/-! ## What names say together -/

/-- What names say together. Of directions and of numbers the last one counts, of the others only
whether they are there. -/
def Flags.ofNames (names : List Name) : Flags where
  all := .all ∈ names
  middle := .middle ∈ names
  first := .first ∈ names
  nth := (names.filterMap Name.number?).getLast?
  left := .left ∈ names
  alternate := (names.filter Name.isDirection).getLast? = some .alternate
  once := .once ∈ names
  shuffle := .shuffle ∈ names

theorem ofNames_concat (names : List Name) (name : Name) :
    Flags.ofNames (names ++ [name]) = (Flags.ofNames names).say name := by
  cases name <;> simp [Flags.ofNames, Flags.say, Name.isDirection, Name.number?]

/-- One name after the other says the same as all together. -/
theorem foldl_say (names : List Name) : names.foldl Flags.say .none = .ofNames names := by
  induction names using List.reverseRecOn with
  | nil => rfl
  | append_singleton names name ih =>
    rw [List.foldl_append, ih, ofNames_concat]
    rfl

/-- Tokens are read if all of them are names, as what the names say. -/
theorem foldlM_eq_ok_iff {g : Flags} (source : String) (tokens : List (List Char)) (f : Flags) :
    tokens.foldlM (Flags.add source) f = .ok g ↔
      (∀ token ∈ tokens, name? token ≠ none) ∧ (tokens.filterMap name?).foldl Flags.say f = g := by
  induction tokens generalizing f with
  | nil => simp [pure, Except.pure]
  | cons token tokens ih =>
    have hadd := toOption_add source f token
    rw [List.foldlM_cons]
    cases hname : name? token with
    | none =>
      rw [hname] at hadd
      cases hf : Flags.add source f token with
      | error e => simp [hname, bind, Except.bind]
      | ok g => simp [hf, Except.toOption] at hadd
    | some name =>
      rw [hname] at hadd
      cases hf : Flags.add source f token with
      | error e => simp [hf, Except.toOption] at hadd
      | ok g' =>
        obtain rfl : g' = f.say name := by simpa [hf, Except.toOption] using hadd
        simpa [hname, bind, Except.bind] using ih (f.say name)

theorem read_eq_ok_iff : read s = .ok strategy ↔
    (∀ token ∈ tokens s, name? token ≠ none) ∧
      (Flags.ofNames ((tokens s).filterMap name?)).strategy = strategy := by
  rw [← foldl_say, read]
  cases hf : (tokens s).foldlM (Flags.add s) Flags.none with
  | error e =>
    have hne (g : Flags) : (tokens s).foldlM (Flags.add s) Flags.none ≠ .ok g := by simp [hf]
    simp only [Ne, foldlM_eq_ok_iff, not_and] at hne
    simp only [reduceCtorEq, false_iff, not_and]
    exact fun hnames => absurd rfl (hne _ hnames)
  | ok g =>
    obtain ⟨hnames, rfl⟩ := (foldlM_eq_ok_iff s _ _).1 hf
    simp only [Except.ok.injEq]
    exact ⟨fun h => ⟨hnames, h⟩, fun h => h.2⟩

/-- Directions and numbers have to stay in order, the other names do not. -/
theorem ofNames_congr {names names' : List Name} (h : names.Perm names')
    (hdirections : names.filter Name.isDirection = names'.filter Name.isDirection)
    (hnumbers : names.filter Name.isNumber = names'.filter Name.isNumber) :
    Flags.ofNames names = Flags.ofNames names' := by
  have hfilter (names : List Name) :
      names.filterMap Name.number? = (names.filter Name.isNumber).filterMap Name.number? := by
    rw [List.filterMap_filter]
    refine List.filterMap_congr fun name _ => ?_
    cases name <;> rfl
  have hnumber : names.filterMap Name.number? = names'.filterMap Name.number? := by
    rw [hfilter, hnumbers, ← hfilter]
  simp only [Flags.ofNames, hnumber, hdirections, h.mem_iff]

/-! ## Tokens -/

/-- The token of a direction. -/
def isDirection (token : List Char) : Bool :=
  token == "alternate".toList || token == "simple".toList

/-- The token of a number. -/
def isNumber (token : List Char) : Bool :=
  "repeat-nth(".toList.isPrefixOf token

/-- The kind of a name can be seen at its token. -/
theorem kind_of_name? (h : name? token = some name) :
    name.isDirection = isDirection token ∧ name.isNumber = isNumber token := by
  cases hword : Name.words.find? fun name => name.text == token with
  | some word =>
    obtain rfl : word = name := by simpa [name?, hword] using h
    obtain ⟨hmem, rfl⟩ := mem_words_of_find? hword
    fin_cases hmem <;> exact ⟨rfl, rfl⟩
  | none =>
    rw [name?, hword, Option.none_or] at h
    obtain ⟨digits, n, rfl, -, -, rfl⟩ := numbered?_eq_some.1 h
    exact ⟨rfl, rfl⟩

theorem filter_filterMap_name? {p : Name → Bool} {q : List Char → Bool}
    (h : ∀ token name, name? token = some name → p name = q token) (tokens : List (List Char)) :
    (tokens.filterMap name?).filter p = (tokens.filter q).filterMap name? := by
  rw [List.filter_filterMap, List.filterMap_filter]
  refine List.filterMap_congr fun token _ => ?_
  cases hname : name? token with
  | none => simp
  | some name => simp [h token name hname, Option.filter_some]

/-- Other tokens that say the same. -/
structure SameNames (tokens tokens' : List (List Char)) : Prop where
  perm : tokens.Perm tokens'
  directions : tokens.filter isDirection = tokens'.filter isDirection
  numbers : tokens.filter isNumber = tokens'.filter isNumber

/-- Of the order of tokens only that of directions counts, and that of numbers. -/
theorem read_congr (h : SameNames (tokens s) (tokens t)) :
    read s = .ok strategy ↔ read t = .ok strategy := by
  have hflags : Flags.ofNames ((tokens s).filterMap name?) =
      Flags.ofNames ((tokens t).filterMap name?) := by
    refine ofNames_congr (h.perm.filterMap _) ?_ ?_
    · have hkind := filter_filterMap_name? fun token name h => (kind_of_name? h).1
      rw [hkind, hkind, h.directions]
    · have hkind := filter_filterMap_name? fun token name h => (kind_of_name? h).2
      rw [hkind, hkind, h.numbers]
  simp only [read_eq_ok_iff, hflags, h.perm.mem_iff]

/-! ## Pieces -/

/-- What stands between the commas of a text. -/
def pieces (s : String) : List (List Char) :=
  Text.splitOn ',' s.toList

/-- A piece in lower case and without White_Space. -/
def tokenOf (piece : List Char) : List Char :=
  Text.lower (piece.filter fun c => !Text.isBlank c)

theorem tokens_eq (s : String) :
    tokens s = ((pieces s).map tokenOf).filter fun token => !token.isEmpty := by
  have hsplit : Text.splitOn ',' (s.toList.filter fun c => !Text.isBlank c) =
      (pieces s).map (List.filter fun c => !Text.isBlank c) :=
    Text.splitOn_filter (by decide) s.toList
  rw [tokens, Text.lower, Text.splitOn_map Text.toLower_eq_comma_iff, hsplit, List.map_map]
  rfl

theorem filter_tokens {p : List Char → Bool} (h : p [] = false) (s : String) :
    (tokens s).filter p = ((pieces s).filter fun piece => p (tokenOf piece)).map tokenOf := by
  have hempty (token : List Char) : (p token && !token.isEmpty) = p token := by
    cases token with
    | nil => rw [h, Bool.false_and]
    | cons c cs => exact Bool.and_true _
  rw [tokens_eq, List.filter_filter, List.filter_map]
  simp only [hempty]
  rfl

/-! ## Rewording -/

/-- Another way to write the names of a text. -/
inductive Reworded (s t : String) : Prop where
  /-- The names stand in another order, in which directions keep theirs and numbers keep theirs. -/
  | order (perm : (pieces s).Perm (pieces t))
      (directions : (pieces s).filter (fun piece => isDirection (tokenOf piece)) =
        (pieces t).filter fun piece => isDirection (tokenOf piece))
      (numbers : (pieces s).filter (fun piece => isNumber (tokenOf piece)) =
        (pieces t).filter fun piece => isNumber (tokenOf piece))
  /-- Letters are in another case. -/
  | letters (lower : Text.lower s.toList = Text.lower t.toList)
  /-- There is other White_Space. -/
  | blanks (solid : s.toList.filter (fun c => !Text.isBlank c) =
      t.toList.filter fun c => !Text.isBlank c)
  /-- There are other commas with nothing between them. -/
  | commas (written : (pieces s).filter (fun piece => !piece.isEmpty) =
      (pieces t).filter fun piece => !piece.isEmpty)

theorem isBlank_toLower (c : Char) : Text.isBlank c.toLower = Text.isBlank c := by
  rcases Css.toLower_cases c with h | ⟨n, hn, rfl⟩
  · rw [h]
  · revert n
    decide

theorem tokens_of_letters (h : Text.lower s.toList = Text.lower t.toList) :
    tokens s = tokens t := by
  have hlower (cs : List Char) : Text.lower (cs.filter fun c => !Text.isBlank c) =
      (Text.lower cs).filter fun c => !Text.isBlank c := by
    rw [Text.lower, Text.lower, List.filter_map]
    congr 2
    funext c
    simp [isBlank_toLower]
  rw [tokens, tokens, hlower, hlower, h]

theorem tokens_of_commas (h : (pieces s).filter (fun piece => !piece.isEmpty) =
    (pieces t).filter fun piece => !piece.isEmpty) : tokens s = tokens t := by
  have hwritten (s : String) : tokens s = (((pieces s).filter fun piece => !piece.isEmpty).filter
      fun piece => !(tokenOf piece).isEmpty).map tokenOf := by
    rw [tokens_eq, List.filter_map, List.filter_filter]
    congr 2
    funext piece
    cases piece with
    | nil => rfl
    | cons c cs => exact (Bool.and_true _).symm
  rw [hwritten, hwritten, h]

theorem Reworded.sameNames (h : Reworded s t) : SameNames (tokens s) (tokens t) := by
  have hself {tokens tokens' : List (List Char)} (h : tokens = tokens') :
      SameNames tokens tokens' := h ▸ ⟨.refl _, rfl, rfl⟩
  cases h with
  | order perm directions numbers =>
    constructor
    case perm => rw [tokens_eq, tokens_eq]; exact (perm.map _).filter _
    case directions => rw [filter_tokens rfl, filter_tokens rfl, directions]
    case numbers => rw [filter_tokens rfl, filter_tokens rfl, numbers]
  | letters lower => exact hself (tokens_of_letters lower)
  | blanks solid => exact hself (by rw [tokens, tokens, solid])
  | commas written => exact hself (tokens_of_commas written)

theorem Reworded.read_iff (h : Relation.ReflTransGen Reworded s t) :
    read t = .ok strategy ↔ read s = .ok strategy := by
  induction h with
  | refl => exact Iff.rfl
  | tail _ hstep ih => exact (read_congr hstep.sameNames).symm.trans ih

/-! ## Printing -/

/-- The names that a strategy is printed with. -/
def names (strategy : RepeatStrategy) : List Name :=
  (match strategy.source with
    | .last => [.last]
    | .first => [.first]
    | .middle left => .middle :: if left then [.left] else []
    | .nth n => [.nth n]
    | .all direction once => .all ::
      ((if direction = .alternate then [.alternate] else []) ++ if once then [.once] else [])) ++
    if strategy.shuffle then [.shuffle] else []

/-- The number of a strategy, if it has one, is one of those that are counted with. -/
def IsCounted (strategy : RepeatStrategy) : Prop :=
  ∀ n, strategy.source = .nth n → 1 ≤ n ∧ n < 2 ^ 64

theorem strategy_ofNames (strategy : RepeatStrategy) :
    (Flags.ofNames strategy.names).strategy = strategy := by
  obtain ⟨source, shuffle⟩ := strategy
  cases source with
  | all direction once => cases direction <;> cases once <;> cases shuffle <;> rfl
  | middle left => cases left <;> cases shuffle <;> rfl
  | last | first | nth => cases shuffle <;> rfl

theorem toList_text (strategy : RepeatStrategy) :
    strategy.text.toList = Text.join [','] (strategy.names.map Name.text) := by
  obtain ⟨source, shuffle⟩ := strategy
  cases source with
  | all direction once => cases direction <;> cases once <;> cases shuffle <;> decide +kernel
  | middle left => cases left <;> cases shuffle <;> decide +kernel
  | last | first => cases shuffle <;> decide +kernel
  | nth n =>
    have hdigits : (toString n).toList = Nat.toDigits 10 n := Nat.toList_repr
    have hname : (sourceText (.nth n)).toList = (Name.nth n).text := by
      rw [sourceText, String.toList_append, String.toList_append, hdigits, List.append_assoc]
      rfl
    cases shuffle with
    | false =>
      change (sourceText (.nth n) ++ "").toList = _
      rw [String.append_empty, hname]
      exact (List.append_nil _).symm
    | true =>
      change (sourceText (.nth n) ++ ",shuffle-data").toList = _
      rw [String.toList_append, hname]
      rfl

theorem mem_words_or (name : Name) : name ∈ Name.words ∨ ∃ n, name = .nth n := by
  cases name with
  | nth n => exact .inr ⟨n, rfl⟩
  | _ => exact .inl (by decide)

/-- A character that is neither cut at nor changed. -/
def isTokenChar (c : Char) : Bool :=
  c != ',' && !Text.isBlank c && c.toLower == c

theorem isTokenChar_of_isDigit {c : Char} (h : Text.isDigit c = true) : isTokenChar c = true := by
  rw [Text.isDigit, Bool.and_eq_true, decide_eq_true_eq, decide_eq_true_eq, Char.le_def,
    Char.le_def, UInt32.le_iff_toNat_le, UInt32.le_iff_toNat_le] at h
  obtain ⟨n, hn, rfl⟩ : ∃ n ∈ List.range' 48 10, c = Char.ofNat n :=
    ⟨c.toNat, List.mem_range'_1.2 ⟨h.1, Nat.lt_succ_of_le h.2⟩, (Char.ofNat_toNat c).symm⟩
  clear h
  revert n
  decide

theorem Name.isTokenChar (name : Name) : ∀ c ∈ name.text, isTokenChar c = true := by
  rcases mem_words_or name with h | ⟨n, rfl⟩
  · fin_cases h <;> exact List.all_eq_true.1 (by decide)
  · intro c hc
    rcases List.mem_append.1 hc with hc | hc
    · exact List.all_eq_true.1 (by decide) c hc
    · rcases List.mem_append.1 hc with hc | hc
      · exact isTokenChar_of_isDigit ((Number.isNumeral_toDigits n).2 c hc)
      · rw [List.mem_singleton.1 hc]
        decide

theorem Name.not_mem_text (name : Name) : ',' ∉ name.text := by
  intro h
  have := name.isTokenChar ',' h
  revert this
  decide

theorem Name.tokenOf_text (name : Name) : tokenOf name.text = name.text := by
  have hchars (c : Char) (hc : c ∈ name.text) : Text.isBlank c = false ∧ c.toLower = c := by
    have := name.isTokenChar c hc
    simp only [RepeatStrategy.isTokenChar, Bool.and_eq_true, Bool.not_eq_true', beq_iff_eq] at this
    exact ⟨this.1.2, this.2⟩
  have hsolid : name.text.filter (fun c => !Text.isBlank c) = name.text :=
    List.filter_eq_self.2 fun c hc => by rw [(hchars c hc).1]; rfl
  rw [tokenOf, hsolid, Text.lower]
  exact (List.map_congr_left fun c hc => (hchars c hc).2).trans (List.map_id' _)

theorem names_ne_nil (strategy : RepeatStrategy) : strategy.names ≠ [] := by
  obtain ⟨source, shuffle⟩ := strategy
  cases source <;> simp [names]

theorem tokens_text (strategy : RepeatStrategy) :
    tokens strategy.text = strategy.names.map Name.text := by
  have hpieces : pieces strategy.text = strategy.names.map Name.text := by
    rw [pieces, toList_text]
    refine Text.splitOn_join (by simp [strategy.names_ne_nil]) fun token htoken => ?_
    obtain ⟨name, -, rfl⟩ := List.mem_map.1 htoken
    exact name.not_mem_text
  have htokens : (strategy.names.map Name.text).map tokenOf = strategy.names.map Name.text := by
    rw [List.map_map]
    exact List.map_congr_left fun name _ => name.tokenOf_text
  rw [tokens_eq, hpieces, htokens]
  refine List.filter_eq_self.2 fun token htoken => ?_
  obtain ⟨name, -, rfl⟩ := List.mem_map.1 htoken
  cases name <;> rfl

/-- A name is read from its text. -/
theorem Name.name?_text {name : Name} (h : ∀ n, name = .nth n → 1 ≤ n ∧ n < 2 ^ 64) :
    name? name.text = some name := by
  rcases mem_words_or name with hword | ⟨n, rfl⟩
  · fin_cases hword <;> rfl
  · obtain ⟨hpos, hsmall⟩ := h n rfl
    have hnumbered : numbered? (Name.nth n).text = some (.nth n) :=
      numbered?_eq_some.2 ⟨_, n, rfl, Number.readWord?_toDigits hsmall, hpos, rfl⟩
    have hword : Name.words.find? (fun name => name.text == (Name.nth n).text) = none := rfl
    rw [name?, hword, hnumbered]
    rfl

theorem eq_of_nth_mem_names {n : Nat} (h : .nth n ∈ strategy.names) : strategy.source = .nth n := by
  obtain ⟨source, shuffle⟩ := strategy
  have hsource : .nth n ∈ names ⟨source, false⟩ := by
    cases shuffle with
    | false => exact h
    | true => simpa [names] using h
  cases source with
  | nth m => simpa [names, eq_comm] using hsource
  | last | first => simp [names] at hsource
  | middle left => cases left <;> simp [names] at hsource
  | all direction once => cases direction <;> cases once <;> simp [names] at hsource

theorem read_text (h : strategy.IsCounted) : read strategy.text = .ok strategy := by
  have hnames (name : Name) (hname : name ∈ strategy.names) : name? name.text = some name :=
    Name.name?_text fun n hn => h n (eq_of_nth_mem_names (hn ▸ hname))
  have hread : (strategy.names.map Name.text).filterMap name? = strategy.names := by
    rw [List.filterMap_map]
    exact (List.filterMap_congr hnames).trans List.filterMap_some
  refine read_eq_ok_iff.2 ⟨fun token htoken => ?_, ?_⟩
  · rw [tokens_text] at htoken
    obtain ⟨name, hname, rfl⟩ := List.mem_map.1 htoken
    simp [hnames name hname]
  · rw [tokens_text, hread, strategy_ofNames]

/-! ## The whole -/

/-- **A strategy is read from its text, and from any other way to write its names.** Rewording changes
neither whether a text is read nor the strategy that is read. -/
theorem read_reworded :
    (∀ strategy : RepeatStrategy, strategy.IsCounted → read strategy.text = .ok strategy) ∧
      ∀ s t, Relation.ReflTransGen Reworded s t →
        ∀ strategy, read t = .ok strategy ↔ read s = .ok strategy :=
  ⟨fun _ => read_text, fun _ _ h _ => Reworded.read_iff h⟩

/-- The greatest number is read from its text, and names in another order, with other White_Space
and more commas say the same. -/
theorem read_reworded_walk :
    read "repeat-nth(18446744073709551615),shuffle-data" =
        .ok ⟨.nth 18446744073709551615, true⟩ ∧
      read "repeat-all,simple,once,alternate" = .ok ⟨.all .alternate true, false⟩ ∧
      read " ONCE ,,Simple,Repeat - All,,Alternate" = .ok ⟨.all .alternate true, false⟩ := by
  have horder : Reworded "repeat-all,simple,once,alternate" "once,simple,repeat-all,alternate" :=
    .order (by decide +kernel) (by decide +kernel) (by decide +kernel)
  have hletters : Reworded "once,simple,repeat-all,alternate" "ONCE,Simple,Repeat-All,Alternate" :=
    .letters (by decide +kernel)
  have hcommas : Reworded "ONCE,Simple,Repeat-All,Alternate" "ONCE,,Simple,Repeat-All,,Alternate" :=
    .commas (by decide +kernel)
  have hblanks : Reworded "ONCE,,Simple,Repeat-All,,Alternate"
      " ONCE ,,Simple,Repeat - All,,Alternate" := .blanks (by decide +kernel)
  have hread : read "repeat-all,simple,once,alternate" = .ok ⟨.all .alternate true, false⟩ := rfl
  refine ⟨?_, hread, (read_reworded.2 _ _ ?_ _).2 hread⟩
  · refine read_reworded.1 ⟨.nth 18446744073709551615, true⟩ fun n hn => ?_
    cases hn
    decide
  · exact (((Relation.ReflTransGen.single horder).tail hletters).tail hcommas).tail hblanks

end RepeatStrategy

end MarkupTemplate

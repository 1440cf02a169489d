import MarkupTemplate.Proofs.BranchParts
import MarkupTemplate.Proofs.Validation

/-!
# Selectors read again

What a compound is read as is decided by its own text: not by the text that messages name, and not by
the bound on how deep negations nest.

* `Carries` — every result of one computation is the result of another one.
* `BranchScan.step_cases`, `BranchScan.finish_eq_ok` — everything that the scan of a branch does.
* `length_le_of_branchParts` — the parts of a branch are no longer than the branch.
* `groupFrom?_append` — a group and what is behind it.
* `readSimple_append` — a condition is read in the same way if something is put behind the text, unless
  the name of a class or an id goes on in it.
* `readCompoundWithin_carries` — **the main result**: a compound is read in the same way under every
  name, with every bound that is longer than the text.
-/

namespace MarkupTemplate.Css

open XPath (bind_eq_ok pure_eq_ok ok_bind takeWhile_append_stop)

variable {α β : Type} {source source' : String} {cs ds rest inner : List Char} {c : Char} {n : Nat}

/-! ## Results that are carried over -/

/-- What `x` returns is returned by `y` as well. -/
def Carries (x y : Except Error α) : Prop :=
  ∀ a, x = .ok a → y = .ok a

theorem Carries.refl (x : Except Error α) : Carries x x :=
  fun _ => id

theorem carries_error (e : Error) (y : Except Error α) : Carries (.error e) y :=
  nofun

theorem Carries.bind {x y : Except Error α} {f g : α → Except Error β} (h : Carries x y)
    (hf : ∀ a, x = .ok a → Carries (f a) (g a)) : Carries (x >>= f) (y >>= g) := by
  intro b hb
  obtain ⟨a, ha, hb⟩ := bind_eq_ok.1 hb
  exact bind_eq_ok.2 ⟨a, h a ha, hf a ha b hb⟩

theorem Carries.ite {x y x' y' : Except Error α} (p : Prop) [Decidable p] (hx : Carries x x')
    (hy : Carries y y') : Carries (if p then x else y) (if p then x' else y') := by
  split
  · exact hx
  · exact hy

theorem carries_mapM {f g : α → Except Error β} : ∀ {as : List α},
    (∀ a ∈ as, Carries (f a) (g a)) → Carries (as.mapM f) (as.mapM g)
  | [], _ => .refl _
  | a :: as, h => by
    rw [List.mapM_cons, List.mapM_cons]
    have ih := carries_mapM fun b hb => h b (List.mem_cons_of_mem a hb)
    exact (h a List.mem_cons_self).bind fun _ _ => ih.bind fun _ _ => .refl _

theorem carries_foldlM {f g : β → α → Except Error β} (h : ∀ b a, Carries (f b a) (g b a)) :
    ∀ (as : List α) (b : β), Carries (as.foldlM f b) (as.foldlM g b)
  | [], _ => .refl _
  | a :: as, b => by
    rw [List.foldlM_cons, List.foldlM_cons]
    exact (h b a).bind fun b' _ => carries_foldlM h as b'

theorem mapM_append_eq_ok {f : α → Except Error β} {as as' : List α} {bs : List β} :
    (as ++ as').mapM f = .ok bs ↔
      ∃ front back, as.mapM f = .ok front ∧ as'.mapM f = .ok back ∧ bs = front ++ back := by
  rw [List.mapM_append]
  constructor
  · intro h
    obtain ⟨front, hfront, h⟩ := bind_eq_ok.1 h
    obtain ⟨back, hback, h⟩ := bind_eq_ok.1 h
    exact ⟨front, back, hfront, hback, (pure_eq_ok.1 h).symm⟩
  · rintro ⟨front, back, hfront, hback, rfl⟩
    exact bind_eq_ok.2 ⟨front, hfront, bind_eq_ok.2 ⟨back, hback, rfl⟩⟩

theorem mapM_cons_eq_ok {f : α → Except Error β} {a : α} {as : List α} {bs : List β} :
    (a :: as).mapM f = .ok bs ↔ ∃ b rest, f a = .ok b ∧ as.mapM f = .ok rest ∧ bs = b :: rest := by
  rw [List.mapM_cons]
  constructor
  · intro h
    obtain ⟨b, hb, h⟩ := bind_eq_ok.1 h
    obtain ⟨rest, hrest, h⟩ := bind_eq_ok.1 h
    exact ⟨b, rest, hb, hrest, (pure_eq_ok.1 h).symm⟩
  · rintro ⟨b, rest, hb, hrest, rfl⟩
    exact bind_eq_ok.2 ⟨b, hb, bind_eq_ok.2 ⟨rest, hrest, rfl⟩⟩

/-! ## Branches -/

theorem eq_top_of_isTop {n : Nesting} (h : n.isTop = true) : n = .top := by
  obtain ⟨depth, quote⟩ := n
  simp only [Nesting.isTop, Bool.and_eq_true, decide_eq_true_eq, Option.isNone_iff_eq_none] at h
  rw [Nesting.top, h.1, h.2]

namespace BranchScan

variable {scan scan' : BranchScan} {parts : List (Combinator × List Char)}

/-- A character belongs to the current part, or it ends the part, perhaps as a combinator. -/
theorem step_cases (h : step source scan c = .ok scan') :
    ((scan.nesting.isTop = false ∨ isUncut c = true) ∧
      scan' = { scan with current := c :: scan.current, nesting := scan.nesting.next false c }) ∨
    (scan.nesting.isTop = true ∧ Text.isBlank c = true ∧ scan' = scan.flush) ∨
    (scan.nesting.isTop = true ∧ Text.isBlank c = false ∧ scan.flush.pending = none ∧ ∃ combinator,
      combinator? c = some combinator ∧ scan' = { scan.flush with pending := some combinator }) := by
  unfold step at h
  dsimp only at h
  split at h
  · rename_i htop
    exact .inl ⟨.inl (by simpa using htop), (Except.ok.inj h).symm⟩
  rename_i htop
  replace htop : scan.nesting.isTop = true := by simpa using htop
  split at h
  · exact .inr (.inl ⟨htop, ‹_›, (Except.ok.inj h).symm⟩)
  rename_i hblank
  split at h
  · rename_i hnone
    exact .inl ⟨.inr (by simp [isUncut, hblank, hnone]), (Except.ok.inj h).symm⟩
  · rename_i combinator hsome
    split at h
    · cases h
    · rename_i hpending
      exact .inr (.inr ⟨htop, by simpa using hblank, by simpa using hpending, combinator, hsome,
        (Except.ok.inj h).symm⟩)

theorem step_carries (source source' : String) (scan : BranchScan) (c : Char) :
    Carries (step source scan c) (step source' scan c) := by
  intro scan' h
  rcases step_cases h with ⟨hinner, rfl⟩ | ⟨htop, hblank, rfl⟩ | ⟨htop, hblank, hpending, k, hk, rfl⟩
  · rcases hinner with htop | huncut
    · simp [step, htop]
    · simp only [isUncut, Bool.and_eq_true, Bool.not_eq_true', Option.isNone_iff_eq_none] at huncut
      simp [step, huncut.1, huncut.2]
  · simp [step, htop, hblank]
  · simp [step, htop, hblank, hk, hpending]

/-- A branch ends outside of everything, behind a part. -/
theorem finish_eq_ok : scan.finish source = .ok parts ↔
    scan.nesting.isTop = true ∧ scan.flush.pending = none ∧ scan.flush.parts ≠ [] ∧
      parts = scan.flush.parts.reverse := by
  rw [finish, flush_nesting]
  cases htop : scan.nesting.isTop with
  | false => simp
  | true =>
    cases hpending : scan.flush.pending with
    | some k => simp
    | none =>
      cases hparts : scan.flush.parts with
      | nil => simp
      | cons part rest => simp [eq_comm]

theorem finish_carries (source source' : String) (scan : BranchScan) :
    Carries (scan.finish source) (scan.finish source') :=
  fun _ h => finish_eq_ok.2 (finish_eq_ok.1 h)

/-- The current part and the parts in front of it have at most `n` characters each. -/
def IsShort (n : Nat) (scan : BranchScan) : Prop :=
  scan.current.length ≤ n ∧ ∀ part ∈ scan.parts, part.2.length ≤ n

theorem IsShort.flush (h : scan.IsShort n) : scan.flush.IsShort n := by
  unfold BranchScan.flush
  split
  · exact h
  · refine ⟨Nat.zero_le n, List.forall_mem_cons.2 ⟨?_, h.2⟩⟩
    simpa using h.1

theorem IsShort.mono {m : Nat} (h : scan.IsShort n) (hle : n ≤ m) : scan.IsShort m :=
  ⟨h.1.trans hle, fun part hpart => (h.2 part hpart).trans hle⟩

theorem IsShort.step (h : scan.IsShort n) (hstep : BranchScan.step source scan c = .ok scan') :
    scan'.IsShort (n + 1) := by
  have hnext := h.mono (Nat.le_add_right n 1)
  rcases step_cases hstep with ⟨-, rfl⟩ | ⟨-, -, rfl⟩ | ⟨-, -, -, k, -, rfl⟩
  · exact ⟨Nat.succ_le_succ h.1, hnext.2⟩
  · exact hnext.flush
  · exact hnext.flush

theorem IsShort.foldlM : ∀ {cs : List Char} {scan : BranchScan} {n : Nat}, scan.IsShort n →
    cs.foldlM (BranchScan.step source) scan = .ok scan' → scan'.IsShort (n + cs.length)
  | [], _, _, h, hscan => by
    obtain rfl := pure_eq_ok.1 hscan
    exact h
  | c :: cs, _, n, h, hscan => by
    rw [List.foldlM_cons] at hscan
    obtain ⟨next, hstep, hscan⟩ := bind_eq_ok.1 hscan
    have hlength := (h.step hstep).foldlM hscan
    rwa [Nat.add_assoc, Nat.add_comm 1] at hlength

end BranchScan

theorem branchParts_carries (source source' : String) (cs : List Char) :
    Carries (branchParts source cs) (branchParts source' cs) :=
  (carries_foldlM (BranchScan.step_carries source source') cs .start).bind fun scan _ =>
    scan.finish_carries source source'

/-- A part of a branch is no longer than the branch. -/
theorem length_le_of_branchParts {parts : List (Combinator × List Char)}
    (h : branchParts source cs = .ok parts) {part : Combinator × List Char} (hpart : part ∈ parts) :
    part.2.length ≤ cs.length := by
  obtain ⟨scan, hscan, hfinish⟩ := bind_eq_ok.1 h
  obtain ⟨-, -, -, rfl⟩ := BranchScan.finish_eq_ok.1 hfinish
  have hstart : BranchScan.start.IsShort 0 := ⟨Nat.le_refl 0, nofun⟩
  have hshort := (hstart.foldlM hscan).flush.2 part (List.mem_reverse.1 hpart)
  rwa [Nat.zero_add] at hshort

/-- A piece of a text is no longer than the text. -/
theorem length_le_of_mem_splitFrom {separator : Char} : ∀ {cs : List Char} {n : Nesting}
    {piece : List Char}, piece ∈ splitFrom separator n cs → piece.length ≤ cs.length
  | [], _, piece, h => by
    rw [splitFrom, List.mem_singleton] at h
    rw [h]
  | c :: cs, n, piece, h => by
    rw [splitFrom] at h
    split at h
    · rcases List.mem_cons.1 h with rfl | h
      · exact Nat.zero_le _
      · exact Nat.le_succ_of_le (length_le_of_mem_splitFrom h)
    · have hne := splitFrom_ne_nil separator (n.next true c) cs
      obtain ⟨first, pieces, hsplit⟩ := List.exists_cons_of_ne_nil hne
      rw [hsplit] at h
      have ih {piece : List Char} (hpiece : piece ∈ first :: pieces) : piece.length ≤ cs.length :=
        length_le_of_mem_splitFrom (hsplit ▸ hpiece)
      rcases List.mem_cons.1 h with rfl | h
      · exact Nat.succ_le_succ (ih List.mem_cons_self)
      · exact Nat.le_succ_of_le (ih (List.mem_cons_of_mem first h))

theorem length_trim_le (cs : List Char) : (Text.trim cs).length ≤ cs.length := by
  have hend := (List.rdropWhile_prefix Text.isBlank (Text.trimStart cs)).length_le
  have hstart := (List.dropWhile_suffix Text.isBlank (l := cs)).length_le
  exact hend.trans hstart

/-! ## Groups -/

/-- A character closes the group, or is in it whatever comes behind. -/
theorem groupFrom?_cons (opener closer : Char) (depth : Nat) (quote : Option Char) (c : Char) :
    (c = closer ∧ ∀ cs, groupFrom? opener closer depth quote (c :: cs) = some ([], cs)) ∨
      ∃ depth' quote', ∀ cs, groupFrom? opener closer depth quote (c :: cs) =
        (groupFrom? opener closer depth' quote' cs).map fun (inner, rest) => (c :: inner, rest) := by
  cases quote with
  | some q => exact .inr ⟨depth, if c = q then none else some q, fun _ => rfl⟩
  | none =>
    by_cases hquote : Nesting.isQuote c = true
    · exact .inr ⟨depth, some c, fun cs => by simp [groupFrom?, hquote]⟩
    by_cases hopener : c = opener
    · exact .inr ⟨depth + 1, none, fun cs => by
        rw [groupFrom?.eq_def]
        dsimp only
        rw [if_neg hquote, if_pos hopener]⟩
    by_cases hcloser : c = closer
    · cases depth with
      | zero => exact .inl ⟨hcloser, fun cs => by
          rw [groupFrom?.eq_def]
          dsimp only
          rw [if_neg hquote, if_neg hopener, if_pos hcloser]⟩
      | succ depth => exact .inr ⟨depth, none, fun cs => by
          rw [groupFrom?.eq_def]
          dsimp only
          rw [if_neg hquote, if_neg hopener, if_pos hcloser]⟩
    · exact .inr ⟨depth, none, fun cs => by
        rw [groupFrom?.eq_def]
        dsimp only
        rw [if_neg hquote, if_neg hopener, if_neg hcloser]⟩

/-- A group is the text up to its closing bracket, whatever stands behind that. -/
theorem groupFrom?_append {opener closer : Char} {depth : Nat} {quote : Option Char}
    (h : groupFrom? opener closer depth quote cs = some (inner, rest)) :
    cs = inner ++ closer :: rest ∧ ∀ tail, groupFrom? opener closer depth quote (cs ++ tail) =
      some (inner, rest ++ tail) := by
  induction cs generalizing depth quote inner with
  | nil => simp [groupFrom?] at h
  | cons c cs ih =>
    rcases groupFrom?_cons opener closer depth quote c with ⟨rfl, hclose⟩ | ⟨d, q, hcons⟩
    · rw [hclose] at h
      obtain ⟨rfl, rfl⟩ := Prod.mk.inj (Option.some.inj h)
      exact ⟨rfl, fun tail => hclose (cs ++ tail)⟩
    · rw [hcons] at h
      obtain ⟨⟨i, r⟩, hi, he⟩ := Option.map_eq_some_iff.1 h
      obtain ⟨rfl, rfl⟩ := Prod.mk.inj he
      obtain ⟨htext, htail⟩ := ih hi
      refine ⟨by rw [htext]; rfl, fun tail => ?_⟩
      rw [List.cons_append, hcons, htail]
      rfl

/-! ## Conditions -/

variable {compound compound' : List Char → Except Error Compound} {tail : List Char}

theorem readNth_carries (source source' : String) (argument : List Char) :
    Carries (readNth source argument) (readNth source' argument) := by
  unfold readNth
  split
  · exact .refl _
  · exact carries_error _ _

theorem readAttribute_carries (source source' : String) (body : List Char) :
    Carries (readAttribute source body) (readAttribute source' body) := by
  unfold readAttribute
  dsimp only
  split
  · exact .ite _ (carries_error _ _) (.refl _)
  · exact .ite _ (carries_error _ _) (.refl _)

theorem readNegation_carries {argument : List Char}
    (h : ∀ ds, ds.length ≤ argument.length → Carries (compound ds) (compound' ds)) :
    Carries (readNegation source compound argument) (readNegation source' compound' argument) := by
  refine carries_mapM fun branch hbranch => ?_
  refine (branchParts_carries source source' _).bind fun parts hparts => ?_
  split
  · rename_i combinator part
    have hpart := length_le_of_branchParts hparts (List.mem_singleton_self (combinator, part))
    have hpiece := length_le_of_mem_splitFrom hbranch
    exact h part ((hpart.trans (length_trim_le branch)).trans hpiece)
  · exact carries_error _ _

theorem readPseudo_carries (name : String) {argument : Option (List Char)}
    (h : ∀ text ∈ argument, ∀ ds, ds.length ≤ text.length → Carries (compound ds) (compound' ds)) :
    Carries (readPseudo source compound name argument)
      (readPseudo source' compound' name argument) := by
  have hnth (position : Nth → Simple) (text : List Char) :
      Carries (readNth source text >>= fun nth => pure [position nth])
        (readNth source' text >>= fun nth => pure [position nth]) :=
    (readNth_carries source source' text).bind fun _ _ => .refl _
  unfold readPseudo
  dsimp only
  refine .ite _ (.refl _) <| .ite _ (.refl _) <| .ite _ (.refl _) <| .ite _ ?nthChild <|
    .ite _ (.refl _) <| .ite _ (.refl _) <| .ite _ (.refl _) <| .ite _ ?nthOfType <|
      .ite _ ?negation <| .ite _ (.refl _) (carries_error _ _)
  case nthChild =>
    cases argument with
    | none => exact carries_error _ _
    | some text => exact hnth .childPosition text
  case nthOfType =>
    cases argument with
    | none => exact carries_error _ _
    | some text => exact hnth .typePosition text
  case negation =>
    cases argument with
    | none => exact carries_error _ _
    | some text => exact (readNegation_carries (h text rfl)).bind fun _ _ => .refl _

/-- A text is cut where its first character outside of a class stands, if there is one. -/
theorem cut_append {p : Char → Bool}
    (h : cs.dropWhile p = [] → ∀ d ∈ tail.head?, p d = false) :
    (cs ++ tail).takeWhile p = cs.takeWhile p ∧
      (cs ++ tail).dropWhile p = cs.dropWhile p ++ tail := by
  have hstop : ∀ d ∈ (cs.dropWhile p ++ tail).head?, p d = false := by
    intro d hd
    cases hrest : cs.dropWhile p with
    | nil =>
      rw [hrest] at hd
      exact h hrest d hd
    | cons e rest =>
      have hhead := List.head?_dropWhile_not p cs
      rw [hrest] at hd hhead
      obtain rfl := Option.some.inj hd
      simpa using hhead
  have hclass : ∀ c ∈ cs.takeWhile p, p c = true := fun c hc => List.mem_takeWhile_imp hc
  have hcut := takeWhile_append_stop hclass hstop
  rwa [← List.append_assoc, List.takeWhile_append_dropWhile] at hcut

theorem head?_append_ne {d : Char} (h : cs.head? ≠ some d) (htail : ∀ e ∈ tail.head?, e = ',')
    (hd : d ≠ ',') : (cs ++ tail).head? ≠ some d := by
  cases cs with
  | nil => exact fun heq => hd (htail d heq)
  | cons c cs => exact h

/-- What follows a colon is read in the same way with a comma and more behind the text. -/
theorem readSimple_colon_append {conditions : List Simple}
    (h : readSimple source compound ':' cs = .ok (conditions, rest))
    (hcompound : ∀ ds, ds.length < cs.length → Carries (compound ds) (compound' ds))
    (htail : ∀ d ∈ tail.head?, d = ',') :
    readSimple source' compound' ':' (cs ++ tail) = .ok (conditions, rest ++ tail) := by
  have hstop : ∀ d ∈ tail.head?, isNameChar d = false := fun d hd => by
    rw [htail d hd]
    decide
  obtain ⟨htake, hdrop⟩ := cut_append fun (_ : cs.dropWhile isNameChar = []) => hstop
  unfold readSimple at h ⊢
  dsimp only at h ⊢
  rw [if_neg (by decide), if_neg (by decide), if_pos rfl] at h ⊢
  by_cases hhead : cs.head? = some ':'
  · rw [if_pos hhead] at h
    cases h
  rw [if_neg hhead] at h
  rw [if_neg (head?_append_ne hhead htail (by decide)), htake, hdrop]
  by_cases hopen : (cs.dropWhile isNameChar).head? = some '('
  · obtain ⟨ds, hds⟩ := List.head?_eq_some_iff.1 hopen
    have hlength := (List.dropWhile_suffix isNameChar (l := cs)).length_le
    rw [hds] at h hlength ⊢
    rw [List.head?_cons, if_pos rfl, List.drop_succ_cons, List.drop_zero] at h
    rw [List.cons_append, List.head?_cons, if_pos rfl, List.drop_succ_cons, List.drop_zero]
    cases hgroup : group? '(' ')' ds with
    | none =>
      rw [hgroup] at h
      cases h
    | some group =>
      obtain ⟨argument, after⟩ := group
      rw [hgroup] at h
      obtain ⟨found, hfound, h⟩ := bind_eq_ok.1 h
      obtain ⟨rfl, rfl⟩ := Prod.mk.inj (pure_eq_ok.1 h)
      obtain ⟨htext, hgroup'⟩ := groupFrom?_append hgroup
      have hshort (text : List Char) (htext' : text ∈ some argument) (es : List Char)
          (hes : es.length ≤ text.length) : Carries (compound es) (compound' es) := by
        obtain rfl := Option.some.inj htext'
        refine hcompound es ?_
        rw [htext, List.length_cons, List.length_append] at hlength
        omega
      rw [group?, hgroup']
      dsimp only
      rw [readPseudo_carries _ hshort found hfound]
      rfl
  · rw [if_neg hopen] at h
    obtain ⟨found, hfound, h⟩ := bind_eq_ok.1 h
    obtain ⟨rfl, rfl⟩ := Prod.mk.inj (pure_eq_ok.1 h)
    have hnone (text : List Char) (htext : text ∈ (none : Option (List Char))) :
        ∀ ds, ds.length ≤ text.length → Carries (compound ds) (compound' ds) := nomatch htext
    rw [if_neg (head?_append_ne hopen htail (by decide)), readPseudo_carries _ hnone found hfound]
    rfl

/-- A condition is read in the same way with a comma and more behind the text, unless a name goes on
there. -/
theorem readSimple_append {conditions : List Simple}
    (h : readSimple source compound c cs = .ok (conditions, rest))
    (hcompound : ∀ ds, ds.length < cs.length → Carries (compound ds) (compound' ds))
    (htail : ∀ d ∈ tail.head?, d = ',') (hname : rest = [] → c = '#' ∨ c = '.' → tail = []) :
    readSimple source' compound' c (cs ++ tail) = .ok (conditions, rest ++ tail) := by
  by_cases hcolon : c = ':'
  · subst hcolon
    exact readSimple_colon_append h hcompound htail
  unfold readSimple at h ⊢
  dsimp only at h ⊢
  by_cases hsign : c = '#' ∨ c = '.'
  · have hcond : (decide (c = '#') || decide (c = '.')) = true := by simpa using hsign
    rw [if_pos hcond] at h ⊢
    by_cases hempty : (String.ofList (Text.lower (cs.takeWhile fun d => !endsName d))).isEmpty = true
    · rw [if_pos hempty] at h
      cases h
    · rw [if_neg hempty] at h
      obtain ⟨rfl, rfl⟩ := Prod.mk.inj (Except.ok.inj h)
      have hstop (hrest : cs.dropWhile (fun d => !endsName d) = []) :
          ∀ d ∈ tail.head?, (!endsName d) = false := by
        rw [hname hrest hsign]
        nofun
      obtain ⟨htake, hdrop⟩ := cut_append hstop
      rw [htake, hdrop, if_neg hempty]
  have hcond : ¬(decide (c = '#') || decide (c = '.')) = true := by simpa using hsign
  rw [if_neg hcond] at h ⊢
  by_cases hblock : c = '['
  · rw [if_pos hblock] at h ⊢
    cases hgroup : group? '[' ']' cs with
    | none =>
      rw [hgroup] at h
      cases h
    | some group =>
      obtain ⟨body, after⟩ := group
      rw [hgroup] at h
      obtain ⟨condition, hcondition, h⟩ := bind_eq_ok.1 h
      obtain ⟨rfl, rfl⟩ := Prod.mk.inj (pure_eq_ok.1 h)
      have hgroup' : group? '[' ']' (cs ++ tail) = some (body, after ++ tail) :=
        (groupFrom?_append hgroup).2 tail
      rw [hgroup']
      dsimp only
      rw [readAttribute_carries source source' body condition hcondition]
      rfl
  · rw [if_neg hblock, if_neg hcolon] at h
    cases h

/-- What follows a condition is an end of the text. -/
theorem suffix_of_readSimple {conditions : List Simple}
    (h : readSimple source compound c cs = .ok (conditions, rest)) : rest <:+ cs := by
  unfold readSimple at h
  dsimp only at h
  split at h
  · split at h
    · cases h
    · obtain ⟨-, rfl⟩ := Prod.mk.inj (Except.ok.inj h)
      exact List.dropWhile_suffix _
  split at h
  · split at h
    · cases h
    · rename_i body after hgroup
      obtain ⟨condition, -, h⟩ := bind_eq_ok.1 h
      obtain ⟨-, rfl⟩ := Prod.mk.inj (pure_eq_ok.1 h)
      exact ⟨body ++ [']'], by simp [(groupFrom?_append hgroup).1]⟩
  split at h
  · split at h
    · cases h
    split at h
    · rename_i hopen
      obtain ⟨ds, hds⟩ := List.head?_eq_some_iff.1 hopen
      split at h
      · cases h
      · rename_i argument after hgroup
        obtain ⟨conditions, -, h⟩ := bind_eq_ok.1 h
        obtain ⟨-, rfl⟩ := Prod.mk.inj (pure_eq_ok.1 h)
        rw [hds, List.drop_succ_cons, List.drop_zero] at hgroup
        have hafter : after <:+ '(' :: ds :=
          ⟨'(' :: (argument ++ [')']), by simp [(groupFrom?_append hgroup).1]⟩
        exact hafter.trans (hds ▸ List.dropWhile_suffix _)
    · obtain ⟨conditions, -, h⟩ := bind_eq_ok.1 h
      obtain ⟨-, rfl⟩ := Prod.mk.inj (pure_eq_ok.1 h)
      exact List.dropWhile_suffix _
  · cases h

/-! ## Compounds -/

theorem readConditions_carries
    (hcompound : ∀ ds, ds.length < n → Carries (compound ds) (compound' ds)) :
    ∀ {fuel fuel' : Nat} {cs : List Char}, cs.length ≤ fuel → cs.length ≤ fuel' → cs.length ≤ n →
      Carries (readConditions source compound fuel cs) (readConditions source' compound' fuel' cs)
  | 0, 0, [], _, _, _ | 0, _ + 1, [], _, _, _ | _ + 1, 0, [], _, _, _ | _ + 1, _ + 1, [], _, _, _ =>
    .refl _
  | fuel + 1, fuel' + 1, c :: cs, hfuel, hfuel', hn => by
    intro conditions h
    obtain ⟨⟨first, rest⟩, hfirst, h⟩ := bind_eq_ok.1 h
    obtain ⟨further, hfurther, h⟩ := bind_eq_ok.1 h
    have hrest := (suffix_of_readSimple hfirst).length_le
    rw [List.length_cons] at hfuel hfuel' hn
    have hfirst' : readSimple source' compound' c (cs ++ []) = .ok (first, rest ++ []) :=
      readSimple_append hfirst (fun ds hds => hcompound ds (by omega)) nofun fun _ _ => rfl
    rw [List.append_nil, List.append_nil] at hfirst'
    have ih : readConditions source' compound' fuel' rest = .ok further :=
      readConditions_carries hcompound (by omega) (by omega) (by omega) further hfurther
    exact bind_eq_ok.2 ⟨_, hfirst', bind_eq_ok.2 ⟨_, ih, h⟩⟩

/-- The type that the text of a compound begins with. -/
def typeName (cs : List Char) : String :=
  let name := if cs.head? = some '*' then [] else cs.takeWhile isNameChar
  if name.isEmpty then "*" else String.ofList (Text.lower name)

/-- The text of a compound behind its type. -/
def behindType (cs : List Char) : List Char :=
  if cs.head? = some '*' then cs.drop 1 else cs.dropWhile isNameChar

theorem length_behindType_le (cs : List Char) : (behindType cs).length ≤ cs.length := by
  unfold behindType
  split
  · exact (List.drop_suffix 1 cs).length_le
  · exact (List.dropWhile_suffix isNameChar).length_le

/-- A comma and what follows it stand behind the type. -/
theorem typeName_comma (cs ds : List Char) :
    typeName (cs ++ ',' :: ds) = typeName cs ∧
      behindType (cs ++ ',' :: ds) = behindType cs ++ ',' :: ds := by
  unfold typeName behindType
  dsimp only
  by_cases hstar : cs.head? = some '*'
  · obtain ⟨ds, rfl⟩ := List.head?_eq_some_iff.1 hstar
    exact ⟨rfl, rfl⟩
  · have hcomma : ∀ d ∈ (',' :: ds).head?, d = ',' := by simp
    have hstop : ∀ d ∈ (',' :: ds).head?, isNameChar d = false := by
      simp
      decide
    obtain ⟨htake, hdrop⟩ := cut_append fun (_ : cs.dropWhile isNameChar = []) => hstop
    rw [if_neg hstar, if_neg hstar, if_neg (head?_append_ne hstar hcomma (by decide)),
      if_neg (head?_append_ne hstar hcomma (by decide)), htake, hdrop]
    exact ⟨rfl, rfl⟩

theorem readCompoundWithin_eq_ok {depth : Nat} {d : Compound} :
    readCompoundWithin source (depth + 1) cs = .ok d ↔ ∃ conditions,
      readConditions source (readCompoundWithin source depth) (behindType cs).length
        (behindType cs) = .ok conditions ∧ d = .mk (typeName cs) conditions := by
  constructor
  · intro h
    obtain ⟨conditions, hconditions, h⟩ := bind_eq_ok.1 h
    exact ⟨conditions, hconditions, (pure_eq_ok.1 h).symm⟩
  · rintro ⟨conditions, hconditions, rfl⟩
    exact bind_eq_ok.2 ⟨conditions, hconditions, rfl⟩

/-- **What a compound is read as depends on its text alone**, if the bounds on how deep negations nest
are longer than the text. -/
theorem readCompoundWithin_carries : ∀ {depth depth' : Nat} {cs : List Char}, cs.length < depth →
    cs.length < depth' →
      Carries (readCompoundWithin source depth cs) (readCompoundWithin source' depth' cs)
  | depth + 1, depth' + 1, cs, h, h' => by
    intro d hd
    obtain ⟨conditions, hconditions, hd⟩ := readCompoundWithin_eq_ok.1 hd
    have hlength := length_behindType_le cs
    refine readCompoundWithin_eq_ok.2 ⟨conditions, ?_, hd⟩
    refine readConditions_carries (fun ds hds => ?_) (Nat.le_refl _) (Nat.le_refl _)
      (Nat.le_refl _) conditions hconditions
    exact readCompoundWithin_carries (by omega) (by omega)

theorem readParts_carries (source source' : String) (parts : List (Combinator × List Char)) :
    Carries
      (parts.mapM fun (combinator, part) => do return (combinator, ← readCompound source part))
      (parts.mapM fun (combinator, part) => do return (combinator, ← readCompound source' part)) := by
  refine carries_mapM fun part _ => ?_
  have hlength := Nat.lt_add_one part.2.length
  exact (readCompoundWithin_carries hlength hlength).bind fun _ _ => .refl _

theorem readBranch_carries (source source' : String) (cs : List Char) :
    Carries (readBranch source cs) (readBranch source' cs) :=
  (branchParts_carries source source' cs).bind fun parts _ => readParts_carries source source' parts

end MarkupTemplate.Css

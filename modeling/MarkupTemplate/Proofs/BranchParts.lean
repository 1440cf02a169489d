import MarkupTemplate.Proofs.Patterns
import MarkupTemplate.Proofs.Safety
import MarkupTemplate.Proofs.Scanning

/-!
# Parts of branches

A branch is cut at the combinators between its compounds and at White_Space. What stands in brackets,
in parentheses or in quotes is not cut.

* `Balanced` — text in which brackets, parentheses and quotes are closed; `IsPart` — such text where
  it stands alone as a compound.
* `foldlM_blanks`, `link_scan`, `part_scan` — what going over White_Space, over a combinator and over a
  compound does.
* `Written` — the ways to write a list of parts; `Written.branchParts_eq` — they are read as the list.
* `branchParts_written` — **the main result**: every list of parts can be written, and is read from
  each of its texts.
-/

namespace MarkupTemplate.Css

open XPath

variable {cs ds rest inner text : List Char} {c : Char} {source : String} {inside : Bool}
  {parts : List (Combinator × List Char)} {waiting : Option Combinator} {p : Char → Bool}

/-! ## Compounds -/

/-- Text in which every bracket and parenthesis is closed, by a closing one of any kind. Inside of them
quotes are closed as well. Outside of all there are no quotes, and no characters that a branch is cut
at. -/
inductive Balanced : Bool → List Char → Prop
  | nil {inside : Bool} : Balanced inside []
  | plain {inside : Bool} {c : Char} {cs : List Char} : isPlain c = true →
      inside = true ∨ isUncut c = true → Balanced inside cs → Balanced inside (c :: cs)
  | quotes {q : Char} {quoted cs : List Char} : Nesting.isQuote q = true → q ∉ quoted →
      Balanced true cs → Balanced true (q :: (quoted ++ q :: cs))
  | group {inside : Bool} {o k : Char} {inner cs : List Char} : Nesting.isOpening o = true →
      Nesting.isClosing k = true → Balanced true inner → Balanced inside cs →
      Balanced inside (o :: (inner ++ k :: cs))

/-- The text of a compound. -/
def IsPart (text : List Char) : Prop :=
  Balanced false text ∧ text ≠ []

theorem balanced_append (h : ∀ c ∈ cs, isPlain c = true ∧ (inside = true ∨ isUncut c = true))
    (hds : Balanced inside ds) : Balanced inside (cs ++ ds) := by
  induction cs with
  | nil => exact hds
  | cons c cs ih =>
    have hc := h c List.mem_cons_self
    exact .plain hc.1 hc.2 (ih fun d hd => h d (List.mem_cons_of_mem c hd))

theorem Quoted.balanced (h : Quoted cs) : Balanced true cs := by
  cases h with
  | none => exact .nil
  | quotes hq hcs => exact .quotes hq hcs .nil

/-- Nested text is balanced. -/
theorem Nested.balanced (h : Nested p cs)
    (hp : ∀ c, p c = true → inside = true ∨ isUncut c = true) : Balanced inside cs := by
  induction h generalizing inside with
  | nil => exact .nil
  | plain hc hpc _ ih => exact .plain hc (hp _ hpc) (ih hp)
  | brackets hname hquoted _ ih =>
    have hinner := balanced_append (fun c hc => ⟨hname c hc, .inl rfl⟩) hquoted.balanced
    have hgroup := Balanced.group (o := '[') (k := ']') rfl rfl hinner (ih hp)
    rwa [List.append_assoc] at hgroup
  | parens _ _ ihinner ih => exact .group rfl rfl (ihinner fun _ _ => .inl rfl) (ih hp)

/-- **Balanced text does not change where the scan of a branch is.** -/
theorem Balanced.passes (h : Balanced inside cs) (n : Nat) (hn : inside = true → n ≠ 0) :
    (partScanner source parts waiting).Passes ⟨n, none⟩ cs ⟨n, none⟩ := by
  have hlawful : (partScanner source parts waiting).Lawful := partScanner_lawful
  induction h generalizing n with
  | nil => exact .nil
  | @plain inside c cs hc huncut _ ih =>
    have hstep : (partScanner source parts waiting).Passes ⟨n, none⟩ [c] ⟨n, none⟩ := by
      refine partScanner_passes (huncut.imp_left fun hinside => ?_) (next_plain hc)
      simp [Nesting.isTop, hn hinside]
    exact hstep.cons (ih n hn)
  | @quotes q quoted cs hq hquoted _ ih =>
    have hopen := hlawful.openQuote n hq (bne_iff_ne.2 (hn rfl))
    have hclose := (hlawful.closeQuote n q).cons (ih n hn)
    exact hopen.cons ((hlawful.passes_string hquoted).append hclose)
  | @group inside o k inner cs ho hk _ _ ihinner ih =>
    have hopen : (partScanner source parts waiting).Passes ⟨n, none⟩ [o] ⟨n + 1, none⟩ := by
      rcases Bool.or_eq_true_iff.1 ho with ho | ho <;> rw [of_decide_eq_true ho]
      · exact hlawful.openBracket n
      · exact hlawful.openParen n
    have hclose : (partScanner source parts waiting).Passes ⟨n + 1, none⟩ [k] ⟨n, none⟩ := by
      rcases Bool.or_eq_true_iff.1 hk with hk | hk <;> rw [of_decide_eq_true hk]
      · exact hlawful.closeBracket n
      · exact hlawful.closeParen n
    have hinner := ihinner (n + 1) fun _ => Nat.succ_ne_zero n
    exact hopen.cons (hinner.append (hclose.cons (ih n hn)))

/-! ## Scans -/

theorem step_blank {scan : BranchScan} (htop : scan.nesting = .top)
    (hc : Text.isBlank c = true) : BranchScan.step source scan c = .ok scan.flush := by
  have htop : scan.nesting.isTop = true := by
    rw [htop]
    decide
  simp [BranchScan.step, htop, hc]

/-- Where no part has begun, White_Space changes nothing. -/
theorem foldlM_gap (source : String) {scan : BranchScan} (htop : scan.nesting = .top)
    (hcurrent : scan.current = []) (h : ∀ c ∈ cs, Text.isBlank c = true) :
    cs.foldlM (BranchScan.step source) scan = .ok scan := by
  induction cs with
  | nil => rfl
  | cons c cs ih =>
    have hflush : scan.flush = scan := by simp [BranchScan.flush, hcurrent]
    rw [List.foldlM_cons, step_blank htop (h c List.mem_cons_self), hflush, ok_bind]
    exact ih fun d hd => h d (List.mem_cons_of_mem _ hd)

theorem flush_flush (scan : BranchScan) : scan.flush.flush = scan.flush := by
  by_cases h : scan.current = [] <;> simp [BranchScan.flush, h]

theorem flush_nesting (scan : BranchScan) : scan.flush.nesting = scan.nesting := by
  by_cases h : scan.current = [] <;> simp [BranchScan.flush, h]

theorem flush_current (scan : BranchScan) : scan.flush.current = [] := by
  by_cases h : scan.current = [] <;> simp [BranchScan.flush, h]

/-- White_Space ends the current part. -/
theorem foldlM_blanks (source : String) {scan : BranchScan} (htop : scan.nesting = .top)
    (h : ∀ c ∈ cs, Text.isBlank c = true) : ∃ scan',
      cs.foldlM (BranchScan.step source) scan = .ok scan' ∧ scan'.nesting = .top ∧
        scan'.flush = scan.flush := by
  cases cs with
  | nil => exact ⟨scan, rfl, htop, rfl⟩
  | cons c cs =>
    have hgap := foldlM_gap source ((flush_nesting scan).trans htop)
      (flush_current scan) fun d hd => h d (List.mem_cons_of_mem c hd)
    refine ⟨scan.flush, ?_, (flush_nesting scan).trans htop, flush_flush scan⟩
    rw [List.foldlM_cons, step_blank htop (h c List.mem_cons_self), ok_bind, hgap]

/-- A sign with White_Space around it. -/
theorem foldlM_sign {scan : BranchScan} {combinator : Combinator} (before after : Gap)
    (htop : scan.nesting = .top) (hpending : scan.flush.pending = none)
    (hblank : Text.isBlank c = false) (hc : BranchScan.combinator? c = some combinator) :
    (before.text ++ c :: after.text).foldlM (BranchScan.step source) scan =
      .ok { scan.flush with pending := some combinator } := by
  obtain ⟨scan', hscan, htop', hflush⟩ := foldlM_blanks source htop before.isBlank
  have htrue : scan'.nesting.isTop = true := by
    rw [htop']
    decide
  have hstep : BranchScan.step source scan' c =
      .ok { scan.flush with pending := some combinator } := by
    simp [BranchScan.step, htrue, hblank, hc, hflush, hpending]
  rw [List.foldlM_append, hscan, ok_bind, List.foldlM_cons, hstep, ok_bind]
  refine foldlM_gap source ?_ ?_ after.isBlank
  · exact (flush_nesting scan).trans htop
  · exact flush_current scan

/-- The combinator that is pending after what stands between two compounds. -/
def Link.pending : Link → Option Combinator
  | .descendant .. => none
  | .child .. => some .child
  | .adjacent .. => some .adjacent
  | .sibling .. => some .sibling

theorem Link.getD_pending (l : Link) : l.pending.getD .descendant = l.combinator := by
  cases l <;> rfl

theorem link_scan {scan : BranchScan} (l : Link) (htop : scan.nesting = .top)
    (hpending : scan.flush.pending = none) :
    l.text.foldlM (BranchScan.step source) scan =
      .ok { scan.flush with pending := l.pending } := by
  cases l with
  | descendant c hc gap =>
    have hgap := foldlM_gap source ((flush_nesting scan).trans htop)
      (flush_current scan) gap.isBlank
    rw [Link.text, List.foldlM_cons, step_blank htop hc, ok_bind, hgap]
    simp [Link.pending, ← hpending]
  | child before after => exact foldlM_sign before after htop hpending (by decide) rfl
  | adjacent before after => exact foldlM_sign before after htop hpending (by decide) rfl
  | sibling before after => exact foldlM_sign before after htop hpending (by decide) rfl

/-- A compound is the last part when it ends. -/
theorem part_scan (source : String) (h : IsPart text) (parts : List (Combinator × List Char))
    (pending : Option Combinator) : ∃ scan,
      text.foldlM (BranchScan.step source) ⟨parts, [], pending, .top⟩ = .ok scan ∧
        scan.nesting = .top ∧
          scan.flush = ⟨(pending.getD .descendant, text) :: parts, [], none, .top⟩ := by
  have hpasses : (partScanner source parts pending).Passes .top text .top := h.1.passes 0 nofun
  have hscan := foldlM_of_passes hpasses [] []
  rw [List.append_nil, List.append_nil] at hscan
  refine ⟨_, hscan, rfl, ?_⟩
  simp [BranchScan.flush, h.2]

/-! ## Writing -/

/-- The ways to write a list of parts: with its combinators in front of them, each with White_Space
around it or not, and White_Space between the others. In front of the first part there may be a
combinator or none. -/
inductive Written : List (Combinator × List Char) → List Char → Prop
  | first {text : List Char} (before : Gap) : IsPart text →
      Written [(.descendant, text)] (before.text ++ text)
  | led {text : List Char} (l : Link) : IsPart text →
      Written [(l.combinator, text)] (l.text ++ text)
  | next {parts : List (Combinator × List Char)} {cs text : List Char} (l : Link) :
      Written parts cs → IsPart text →
      Written (parts ++ [(l.combinator, text)]) (cs ++ l.text ++ text)

namespace Written

theorem ne_nil (h : Written parts cs) : parts ≠ [] := by
  cases h <;> simp

theorem scan (h : Written parts cs) (source : String) : ∃ scan,
    cs.foldlM (BranchScan.step source) .start = .ok scan ∧ scan.nesting = .top ∧
      scan.flush = ⟨parts.reverse, [], none, .top⟩ := by
  induction h with
  | first before htext =>
    obtain ⟨scan, hscan, htop, hflush⟩ := part_scan source htext [] none
    have hgap : before.text.foldlM (BranchScan.step source) .start = .ok .start :=
      foldlM_gap source rfl rfl before.isBlank
    refine ⟨scan, ?_, htop, hflush⟩
    rw [List.foldlM_append, hgap, ok_bind]
    exact hscan
  | led l htext =>
    obtain ⟨scan, hscan, htop, hflush⟩ := part_scan source htext [] l.pending
    have hlink : l.text.foldlM (BranchScan.step source) .start =
        .ok { BranchScan.start with pending := l.pending } := link_scan l rfl rfl
    refine ⟨scan, ?_, htop, ?_⟩
    · rw [List.foldlM_append, hlink, ok_bind]
      exact hscan
    · rw [hflush, l.getD_pending]
      rfl
  | @next parts cs text l _ htext ih =>
    obtain ⟨scan, hscan, htop, hflush⟩ := ih
    have hpending : scan.flush.pending = none := by rw [hflush]
    obtain ⟨scan', hscan', htop', hflush'⟩ := part_scan source htext parts.reverse l.pending
    refine ⟨scan', ?_, htop', ?_⟩
    · rw [List.foldlM_append, List.foldlM_append, hscan, ok_bind, link_scan l htop hpending,
        ok_bind, hflush]
      exact hscan'
    · rw [hflush', l.getD_pending, List.reverse_append]
      rfl

/-- What is written is read. -/
theorem branchParts_eq (h : Written parts cs) (source : String) :
    branchParts source cs = .ok parts := by
  obtain ⟨scan, hscan, -, hflush⟩ := h.scan source
  have htop : Nesting.top.isTop = true := by decide
  rw [branchParts, hscan, ok_bind, BranchScan.finish, hflush]
  simp [htop, h.ne_nil]

end Written

/-- A combinator with as little around it as can be. -/
def Link.tight : Combinator → Link
  | .descendant => .descendant ' ' (by decide) .none
  | .child => .child .none .none
  | .adjacent => .adjacent .none .none
  | .sibling => .sibling .none .none

theorem Link.combinator_tight (k : Combinator) : (Link.tight k).combinator = k := by
  cases k <;> rfl

/-- Every list of parts can be written. -/
theorem exists_written (hne : parts ≠ []) (h : ∀ part ∈ parts, IsPart part.2) :
    ∃ cs, Written parts cs := by
  induction parts using List.reverseRecOn with
  | nil => exact absurd rfl hne
  | append_singleton parts part ih =>
    obtain ⟨k, text⟩ := part
    have htext : IsPart text := h (k, text) (by simp)
    rw [← Link.combinator_tight k]
    by_cases hparts : parts = []
    · subst hparts
      exact ⟨_, .led _ htext⟩
    · obtain ⟨cs, hcs⟩ := ih hparts fun part hpart => h part (List.mem_append_left _ hpart)
      exact ⟨_, hcs.next _ htext⟩

/-- **Parts are read as they were written.** Every list of parts can be written, and is read from each
of its texts: nothing in brackets, parentheses or quotes is taken for a combinator, and no White_Space
around a combinator for another one. -/
theorem branchParts_written (source : String) (hne : parts ≠ [])
    (hparts : ∀ part ∈ parts, IsPart part.2) :
    (∃ cs, Written parts cs) ∧ ∀ cs, Written parts cs → branchParts source cs = .ok parts :=
  ⟨exists_written hne hparts, fun _ h => h.branchParts_eq source⟩

/-- A combinator in front, and two of the parts with combinators in them that do not count. -/
theorem branchParts_written_menu :
    branchParts "menu" ">a[b=' > '] p:not(c + (d)) ~*".toList =
      .ok [(.child, "a[b=' > ']".toList), (.descendant, "p:not(c + (d))".toList),
        (.sibling, "*".toList)] := by
  have hplain {inside : Bool} {ds : List Char} (cs : List Char) (hds : Balanced inside ds)
      (h : cs.all (fun c => isPlain c && (inside || isUncut c)) = true) :
      Balanced inside (cs ++ ds) := by
    refine balanced_append (fun c hc => ?_) hds
    simpa using List.all_eq_true.1 h c hc
  have hlink : IsPart "a[b=' > ']".toList := by
    have hquotes : Balanced true "' > '".toList :=
      @Balanced.quotes '\'' " > ".toList [] rfl (by decide) .nil
    have hgroup : Balanced false "[b=' > ']".toList :=
      .group (o := '[') (k := ']') rfl rfl (hplain "b=".toList hquotes rfl) .nil
    exact ⟨hplain "a".toList hgroup rfl, by decide⟩
  have hparagraph : IsPart "p:not(c + (d))".toList := by
    have hinner : Balanced true "(d)".toList :=
      .group (o := '(') (k := ')') rfl rfl (hplain "d".toList .nil rfl) .nil
    have hgroup : Balanced false "(c + (d))".toList :=
      .group (o := '(') (k := ')') rfl rfl (hplain "c + ".toList hinner rfl) .nil
    exact ⟨hplain "p:not".toList hgroup rfl, by decide⟩
  have hstar : IsPart "*".toList := ⟨hplain "*".toList .nil rfl, by decide⟩
  have hwritten := ((Written.led (.child .none .none) hlink).next
    (.descendant ' ' (by decide) .none) hparagraph).next (.sibling .space .none) hstar
  refine (branchParts_written "menu" (by decide) ?_).2 _ hwritten
  exact List.forall_mem_cons.2
    ⟨hlink, List.forall_mem_cons.2 ⟨hparagraph, List.forall_mem_singleton.2 hstar⟩⟩

end MarkupTemplate.Css

import MarkupTemplate.Proofs.Contexts
import MarkupTemplate.Proofs.DirectiveKeys
import MarkupTemplate.Proofs.QueryLengths
import MarkupTemplate.Proofs.Rereading

/-!
# Members that go on

A comma is a letter of names for the functions that read the members of selector lists. What happens to
a member that has a comma and more behind it, because the list was not cut there: its last name goes
on, or it is no member any more.

* `readSimple_name_comma` — the name of an id or a class goes on.
* `readCompound_comma` — a compound that goes on ends in such a name.
* `branchParts_comma` — the last part of a branch goes on.
* `length_query_lt` — **the main result**: a member that goes on has a longer query.
-/

namespace MarkupTemplate.Css

open XPath (bind_eq_ok pure_eq_ok ok_bind Begins)

variable {source source' : String} {cs ds rest : List Char} {c : Char}

/-! ## Compounds that go on -/

variable {compound compound' : List Char → Except Error Compound}

/-- No compound begins with a comma. -/
theorem readConditions_comma_ne_ok {fuel : Nat} (hfuel : fuel ≠ 0) (conditions : List Simple) :
    readConditions source compound fuel (',' :: cs) ≠ .ok conditions := by
  obtain ⟨fuel, rfl⟩ := Nat.exists_eq_succ_of_ne_zero hfuel
  exact nofun

theorem readCompound_comma_ne_ok (d : Compound) : readCompound source (',' :: cs) ≠ .ok d := by
  intro h
  obtain ⟨conditions, hconditions, -⟩ := readCompoundWithin_eq_ok.1 h
  have hcomma : behindType (',' :: cs) = ',' :: cs := (typeName_comma [] cs).2
  rw [hcomma] at hconditions
  exact readConditions_comma_ne_ok (Nat.succ_ne_zero _) conditions hconditions

/-- The name of an id or a class that goes on to the end of a text. -/
theorem endsName_of_readSimple {first : List Simple} (hc : c = '#' ∨ c = '.')
    (h : readSimple source compound c cs = .ok (first, [])) :
    cs ≠ [] ∧ ∀ d ∈ cs, endsName d = false := by
  have hsign : (decide (c = '#') || decide (c = '.')) = true := by simpa using hc
  unfold readSimple at h
  dsimp only at h
  rw [if_pos hsign] at h
  split at h
  · cases h
  · rename_i hname
    have hdrop := (Prod.mk.inj (Except.ok.inj h)).2
    rw [List.dropWhile_eq_nil_iff] at hdrop
    refine ⟨?_, fun d hd => by simpa using hdrop d hd⟩
    rintro rfl
    exact hname rfl

/-- A text goes on with what can be part of a name. -/
theorem exists_word (cs : List Char) : ∃ word tail, cs = word ++ tail ∧
    (∀ d ∈ word, endsName d = false) ∧ ∀ d ∈ tail.head?, endsName d = true := by
  refine ⟨cs.takeWhile fun d => !endsName d, cs.dropWhile fun d => !endsName d,
    List.takeWhile_append_dropWhile.symm, fun d hd => ?_, fun d hd => ?_⟩
  · simpa using List.mem_takeWhile_imp hd
  · have hhead := List.head?_dropWhile_not (fun d => !endsName d) cs
    rw [hd] at hhead
    simpa using hhead

/-- With a comma behind it, a name goes on. -/
theorem readSimple_name_comma {first first' : List Simple} (hc : c = '#' ∨ c = '.')
    (h : readSimple source compound c cs = .ok (first, []))
    (h' : readSimple source' compound' c (cs ++ ',' :: ds) = .ok (first', rest)) :
    ∃ condition condition', first = [condition] ∧ first' = [condition'] ∧
      Lengthened condition condition' := by
  obtain ⟨hne, hends⟩ := endsName_of_readSimple hc h
  obtain ⟨word, tail, rfl, hword, htail⟩ := exists_word ds
  have hmore : ∀ d ∈ cs ++ ',' :: word, endsName d = false := by
    simp only [List.forall_mem_append, List.forall_mem_cons]
    exact ⟨hends, by decide, hword⟩
  have hlower : String.ofList (Text.lower (cs ++ ',' :: word)) =
      String.ofList (Text.lower cs) ++ String.ofList (Text.lower (',' :: word)) := by
    rw [Text.lower, List.map_append, String.ofList_append]
    rfl
  have hnonempty : String.ofList (Text.lower (',' :: word)) ≠ "" :=
    String.isEmpty_eq_false_iff.1 (ofList_lower_isEmpty (List.cons_ne_nil ',' word))
  have hread := @readSimple_name cs [] source compound hne hends (by simp)
  have hread' := @readSimple_name (cs ++ ',' :: word) tail source' compound'
    (List.append_ne_nil_of_left_ne_nil hne (',' :: word)) hmore htail
  rw [List.append_nil] at hread
  rw [List.append_assoc, List.cons_append, hlower] at hread'
  rcases hc with rfl | rfl
  · obtain ⟨rfl, -⟩ := Prod.mk.inj (Except.ok.inj (hread.1.symm.trans h))
    obtain ⟨rfl, -⟩ := Prod.mk.inj (Except.ok.inj (hread'.1.symm.trans h'))
    exact ⟨_, _, rfl, rfl, .id _ hnonempty⟩
  · obtain ⟨rfl, -⟩ := Prod.mk.inj (Except.ok.inj (hread.2.symm.trans h))
    obtain ⟨rfl, -⟩ := Prod.mk.inj (Except.ok.inj (hread'.2.symm.trans h'))
    exact ⟨_, _, rfl, rfl, .cls _ hnonempty⟩

/-- Conditions that go on with a comma end in a name, which goes on. -/
theorem readConditions_comma {n : Nat}
    (hcompound : ∀ ds, ds.length < n → Carries (compound ds) (compound' ds)) :
    ∀ {fuel fuel' : Nat} {cs : List Char} {conditions conditions' : List Simple},
      cs.length ≤ fuel → cs.length < fuel' → cs.length ≤ n →
      readConditions source compound fuel cs = .ok conditions →
      readConditions source' compound' fuel' (cs ++ ',' :: ds) = .ok conditions' →
        ∃ before condition condition' after, conditions = before ++ [condition] ∧
          conditions' = before ++ condition' :: after ∧ Lengthened condition condition'
  | _, fuel', [], _, conditions', _, hfuel', _, _, h' =>
    absurd h' (readConditions_comma_ne_ok (Nat.ne_zero_of_lt hfuel') conditions')
  | fuel + 1, fuel' + 1, c :: cs, _, _, hfuel, hfuel', hn, h, h' => by
    obtain ⟨⟨first, rest⟩, hfirst, h⟩ := bind_eq_ok.1 h
    obtain ⟨further, hfurther, h⟩ := bind_eq_ok.1 h
    obtain rfl := pure_eq_ok.1 h
    obtain ⟨⟨first', rest'⟩, hfirst', h'⟩ := bind_eq_ok.1 h'
    obtain ⟨further', hfurther', h'⟩ := bind_eq_ok.1 h'
    obtain rfl := pure_eq_ok.1 h'
    -- Only a name that reaches the end of the text takes the comma in; every other condition is read
    -- as before, and the comma stays in front of what is left.
    by_cases hname : rest = [] ∧ (c = '#' ∨ c = '.')
    · obtain ⟨rfl, hc⟩ := hname
      obtain ⟨condition, condition', rfl, rfl, hlengthened⟩ := readSimple_name_comma hc hfirst hfirst'
      have hnone : further = [] := by
        cases fuel <;> exact (Except.ok.inj hfurther).symm
      rw [hnone]
      exact ⟨[], condition, condition', further', rfl, rfl, hlengthened⟩
    · have hlength := (suffix_of_readSimple hfirst).length_le
      rw [List.length_cons] at hfuel hfuel' hn
      have hcomma : ∀ d ∈ (',' :: ds).head?, d = ',' := by simp
      have hsame : readSimple source' compound' c (cs ++ ',' :: ds) =
          .ok (first, rest ++ ',' :: ds) :=
        readSimple_append hfirst (fun ds hds => hcompound ds (by omega)) hcomma fun hrest hc =>
          absurd ⟨hrest, hc⟩ hname
      obtain ⟨rfl, rfl⟩ := Prod.mk.inj (Except.ok.inj (hsame.symm.trans hfirst'))
      obtain ⟨before, condition, condition', after, rfl, rfl, hlengthened⟩ :=
        readConditions_comma hcompound (by omega) (by omega) (by omega) hfurther hfurther'
      exact ⟨first ++ before, condition, condition', after, (List.append_assoc ..).symm,
        (List.append_assoc ..).symm, hlengthened⟩

/-- A compound that goes on with a comma ends in a name, which goes on. -/
theorem readCompound_comma {d d' : Compound} (h : readCompound source cs = .ok d)
    (h' : readCompound source' (cs ++ ',' :: ds) = .ok d') :
    ∃ type before condition condition' after, d = .mk type (before ++ [condition]) ∧
      d' = .mk type (before ++ condition' :: after) ∧ Lengthened condition condition' := by
  obtain ⟨conditions, hconditions, rfl⟩ := readCompoundWithin_eq_ok.1 h
  obtain ⟨conditions', hconditions', rfl⟩ := readCompoundWithin_eq_ok.1 h'
  obtain ⟨htype, hbehind⟩ := typeName_comma cs ds
  have hlength := length_behindType_le cs
  rw [hbehind] at hconditions'
  obtain ⟨before, condition, condition', after, rfl, rfl, hlengthened⟩ :=
    readConditions_comma (fun es hes => readCompoundWithin_carries hes (by simp; omega))
      (Nat.le_refl _) (by simp) hlength hconditions hconditions'
  exact ⟨typeName cs, before, condition, condition', after, rfl, by rw [htype], hlengthened⟩

/-! ## Branches that go on -/

namespace BranchScan

variable {scan scan' : BranchScan} {parts : List (Combinator × List Char)}

/-- What a scan has in its current part, with the combinator in front of it. -/
def lastPart (scan : BranchScan) : List (Combinator × List Char) :=
  if scan.current = [] then [] else [(scan.pending.getD .descendant, scan.current.reverse)]

theorem flush_parts (scan : BranchScan) :
    scan.flush.parts.reverse = scan.parts.reverse ++ scan.lastPart := by
  by_cases h : scan.current = [] <;> simp [flush, lastPart, h]

/-- The parts that have been read stay. -/
theorem parts_stay (h : cs.foldlM (step source) scan = .ok scan')
    (hfinish : scan'.finish source = .ok parts) : ∃ more, parts = scan.parts.reverse ++ more := by
  induction cs generalizing scan with
  | nil =>
    obtain rfl := pure_eq_ok.1 h
    obtain ⟨-, -, -, rfl⟩ := finish_eq_ok.1 hfinish
    exact ⟨_, flush_parts scan⟩
  | cons c cs ih =>
    rw [List.foldlM_cons] at h
    obtain ⟨next, hstep, h⟩ := bind_eq_ok.1 h
    obtain ⟨more, rfl⟩ := ih h
    rcases step_cases hstep with ⟨-, rfl⟩ | ⟨-, -, rfl⟩ | ⟨-, -, -, k, -, rfl⟩
    · exact ⟨more, rfl⟩
    · exact ⟨_, by rw [flush_parts, List.append_assoc]⟩
    · exact ⟨_, by rw [flush_parts, List.append_assoc]⟩

/-- The current part goes on, and stays where it is. -/
theorem current_stays (h : cs.foldlM (step source) scan = .ok scan')
    (hfinish : scan'.finish source = .ok parts) (hcurrent : scan.current ≠ []) :
    ∃ letters more, parts = scan.parts.reverse ++
      (scan.pending.getD .descendant, scan.current.reverse ++ letters) :: more := by
  induction cs generalizing scan with
  | nil =>
    obtain rfl := pure_eq_ok.1 h
    obtain ⟨-, -, -, rfl⟩ := finish_eq_ok.1 hfinish
    exact ⟨[], [], by rw [flush_parts, lastPart, if_neg hcurrent, List.append_nil]⟩
  | cons c cs ih =>
    rw [List.foldlM_cons] at h
    obtain ⟨next, hstep, hnext⟩ := bind_eq_ok.1 h
    have hflushed {next : BranchScan} (hparts : next.parts = scan.flush.parts)
        (hnext : cs.foldlM (step source) next = .ok scan') : ∃ letters more, parts =
          scan.parts.reverse ++
            (scan.pending.getD .descendant, scan.current.reverse ++ letters) :: more := by
      obtain ⟨more, rfl⟩ := parts_stay hnext hfinish
      rw [hparts, flush_parts, lastPart, if_neg hcurrent, List.append_assoc]
      exact ⟨[], more, by rw [List.append_nil]; rfl⟩
    rcases step_cases hstep with ⟨-, rfl⟩ | ⟨-, -, rfl⟩ | ⟨-, -, -, k, -, rfl⟩
    · obtain ⟨letters, more, rfl⟩ := ih hnext (List.cons_ne_nil c scan.current)
      exact ⟨c :: letters, more, by simp⟩
    · exact hflushed rfl hnext
    · refine hflushed ?_ hnext
      rfl

end BranchScan

/-- A branch goes on with a comma: the comma begins a part, or it goes on in the last one. -/
theorem branchParts_comma {parts parts' : List (Combinator × List Char)} {gap : List Char}
    (hgap : ∀ c ∈ gap, Text.isBlank c = true) (h : branchParts source cs = .ok parts)
    (h' : branchParts source' (cs ++ (gap ++ ',' :: ds)) = .ok parts') :
    (∃ combinator letters, (combinator, ',' :: letters) ∈ parts') ∨
      ∃ front combinator text letters more, parts = front ++ [(combinator, text)] ∧
        parts' = front ++ (combinator, text ++ ',' :: letters) :: more := by
  obtain ⟨scan, hscan, hfinish⟩ := bind_eq_ok.1 h
  obtain ⟨htop, -, -, rfl⟩ := BranchScan.finish_eq_ok.1 hfinish
  obtain ⟨last, hlast, hfinish'⟩ := bind_eq_ok.1 h'
  replace htop := eq_top_of_isTop htop
  obtain ⟨before, hbefore, htop', hflush⟩ := foldlM_blanks source' htop hgap
  have hscan' := carries_foldlM (BranchScan.step_carries source source') cs .start scan hscan
  rw [List.foldlM_append, hscan', ok_bind, List.foldlM_append, hbefore, ok_bind, List.foldlM_cons]
    at hlast
  obtain ⟨behind, hcomma, hlast⟩ := bind_eq_ok.1 hlast
  -- The comma is neither White_Space nor a combinator, so nothing is cut at it.
  have hbehind : behind.parts = before.parts ∧ behind.pending = before.pending ∧
      behind.current = ',' :: before.current := by
    have hnone : BranchScan.combinator? ',' = none := by decide
    rcases BranchScan.step_cases hcomma with ⟨-, rfl⟩ | ⟨-, hblank, -⟩ | ⟨-, -, -, k, hk, -⟩
    · exact ⟨rfl, rfl, rfl⟩
    · exact absurd hblank (by decide)
    · rw [hnone] at hk
      cases hk
  obtain ⟨hparts, hpending, hcurrent⟩ := hbehind
  obtain ⟨letters, more, rfl⟩ := BranchScan.current_stays hlast hfinish' (by simp [hcurrent])
  rw [← hflush, BranchScan.flush_parts, hparts, hpending, hcurrent, List.reverse_cons]
  by_cases hnone : before.current = []
  · refine .inl ⟨before.pending.getD .descendant, letters, ?_⟩
    simp [hnone]
  · refine .inr ⟨before.parts.reverse, before.pending.getD .descendant, before.current.reverse,
      letters, more, ?_, ?_⟩
    · rw [BranchScan.lastPart, if_neg hnone]
    · rw [List.append_assoc]
      rfl

/-- A branch that is read, and goes on with a comma. -/
theorem length_branch_comma {gap : List Char} {branch branch' : Branch}
    (hgap : ∀ c ∈ gap, Text.isBlank c = true) (h : readBranch source cs = .ok branch)
    (h' : readBranch source' (cs ++ (gap ++ ',' :: ds)) = .ok branch') :
    (branchQuery branch).length < (branchQuery branch').length := by
  obtain ⟨parts, hparts, h⟩ := bind_eq_ok.1 h
  obtain ⟨parts', hparts', h'⟩ := bind_eq_ok.1 h'
  rcases branchParts_comma hgap hparts hparts' with
    ⟨combinator, letters, hpart⟩ | ⟨front, combinator, text, letters, more, rfl, rfl⟩
  · obtain ⟨before, after, rfl⟩ := List.append_of_mem hpart
    obtain ⟨-, back, -, hback, -⟩ := mapM_append_eq_ok.1 h'
    obtain ⟨part, -, hpart, -⟩ := mapM_cons_eq_ok.1 hback
    obtain ⟨d, hd, -⟩ := bind_eq_ok.1 hpart
    exact absurd hd (readCompound_comma_ne_ok d)
  · obtain ⟨read, back, hread, hback, rfl⟩ := mapM_append_eq_ok.1 h
    obtain ⟨part, last, hpart, hlast, rfl⟩ := mapM_cons_eq_ok.1 hback
    obtain ⟨d, hd, hpart⟩ := bind_eq_ok.1 hpart
    obtain rfl := pure_eq_ok.1 hpart
    obtain rfl := pure_eq_ok.1 hlast
    obtain ⟨read', back', hread', hback', rfl⟩ := mapM_append_eq_ok.1 h'
    obtain ⟨part', more', hpart', -, rfl⟩ := mapM_cons_eq_ok.1 hback'
    obtain ⟨d', hd', hpart'⟩ := bind_eq_ok.1 hpart'
    obtain rfl := pure_eq_ok.1 hpart'
    obtain ⟨type, before, condition, condition', after, rfl, rfl, hlengthened⟩ :=
      readCompound_comma hd hd'
    have hfront := readParts_carries source source' front read hread
    obtain rfl := Except.ok.inj (hfront.symm.trans hread')
    exact length_branchQuery_lt hlengthened read more' combinator type before after

/-- **A member that goes on with a comma has a longer query**, if it is one at all. -/
theorem length_query_lt {branch branch' : Branch}
    (h : readBranch source (Text.trim cs) = .ok branch)
    (h' : readBranch source' (Text.trim (cs ++ ',' :: ds)) = .ok branch') :
    (branchQuery branch).length < (branchQuery branch').length := by
  have hne : Text.trim cs ≠ [] := by
    intro hnil
    rw [hnil] at h
    cases h
  have hbegins := (Selector.ends_trim hne).1
  have hcomma : Begins (',' :: ds) := ⟨',', ds, rfl, by decide⟩
  obtain ⟨before, after, hcs⟩ := Text.exists_gaps cs
  have htext : cs ++ ',' :: ds = before.text ++ (Text.trim cs ++ after.text ++ ',' :: ds) := by
    conv_lhs => rw [hcs]
    simp
  obtain ⟨rest, hrest⟩ : ∃ rest, Text.trimEnd (',' :: ds) = ',' :: rest := by
    obtain ⟨c, rest, hrest⟩ := List.exists_cons_of_ne_nil (Text.trimEnd_ne_nil hcomma)
    have hbegin := List.rdropWhile_prefix Text.isBlank (',' :: ds)
    change Text.trimEnd (',' :: ds) <+: ',' :: ds at hbegin
    rw [hrest, List.cons_prefix_cons] at hbegin
    exact ⟨rest, hbegin.1 ▸ hrest⟩
  have htrim : Text.trim (cs ++ ',' :: ds) = Text.trim cs ++ (after.text ++ ',' :: rest) := by
    have hgap := (hbegins.append after.text).append (',' :: ds)
    rw [htext, Text.trim_behind before.isBlank hgap, Text.trimEnd_append hcomma, hrest,
      List.append_assoc]
  rw [htrim] at h'
  exact length_branch_comma after.isBlank h h'

end MarkupTemplate.Css

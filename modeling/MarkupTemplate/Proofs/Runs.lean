import MarkupTemplate.Rendering.Pass

/-!
# Runs of jobs

What work does when it is run, by its parts, and the induction over everything that a template can
be filled with.

* `Action.runFrom_bind_ok`, `Action.runFrom_tryCatch_error`, … — runs of composed work.
* `Action.Keeps` — work that leaves a part of the state as it was.
* `Action.Ensures` — work that keeps an invariant, and what is known of its results.
* `Rendering.runFrom_fetchMarkup` — a run of fetching.
* `Rendering.attempt_ok`, `Rendering.attempt_throws`, `Rendering.attempt_records` — the three ways
  in which work ends whose failure is reported.
* `ContentSteps.holds` — a property of contents and directives that each of them has if its parts
  have it holds of all of them.
* `Directive.orderedBy_map` — putting directives in order does not depend on what goes with them.
-/

namespace MarkupTemplate

/-! ## Work -/

namespace Action

variable {σ τ α β : Type} {x : Action σ α} {f : α → Action σ β} {g : Error → Action σ α}
variable {s s' : σ} {a : α} {e : Error}

theorem runFrom_get (s : σ) : (get : Action σ σ).runFrom s = (.ok s, s) :=
  rfl

theorem runFrom_bind_ok (h : x.runFrom s = (.ok a, s')) :
    (x >>= f).runFrom s = (f a).runFrom s' := by
  change x s = _ at h
  change (ExceptT.bind x f) s = f a s'
  simp only [ExceptT.bind, ExceptT.mk, bind, StateT.bind, h, ExceptT.bindCont]

theorem runFrom_bind_error (h : x.runFrom s = (.error e, s')) :
    (x >>= f).runFrom s = (.error e, s') := by
  change x s = _ at h
  change (ExceptT.bind x f) s = _
  simp only [ExceptT.bind, ExceptT.mk, bind, StateT.bind, h, ExceptT.bindCont]
  rfl

theorem runFrom_tryCatch_ok (h : x.runFrom s = (.ok a, s')) :
    (tryCatch x g).runFrom s = (.ok a, s') := by
  change x s = _ at h
  change (ExceptT.tryCatch x g) s = _
  simp only [ExceptT.tryCatch, ExceptT.mk, bind, StateT.bind, h]
  rfl

theorem runFrom_tryCatch_error (h : x.runFrom s = (.error e, s')) :
    (tryCatch x g).runFrom s = (g e).runFrom s' := by
  change x s = _ at h
  change (ExceptT.tryCatch x g) s = _
  simp only [ExceptT.tryCatch, ExceptT.mk, bind, StateT.bind, h]
  rfl

/-- Work on a part of a state ends as it does on the part alone, and changes nothing else. -/
theorem runFrom_on (part : τ → σ) (replace : τ → σ → τ) (t : τ) :
    (x.on part replace).runFrom t =
      ((x.runFrom (part t)).1, replace t (x.runFrom (part t)).2) := by
  rw [on, runFrom_bind_ok (runFrom_get t)]
  cases x.runFrom (part t) with
  | mk result s => cases result <;> rfl

theorem forM_map (f : α → β) (g : β → Action σ Unit) (as : List α) :
    (as.map f).forM g = as.forM fun a => g (f a) := by
  induction as with
  | nil => rfl
  | cons a as ih =>
    change (g (f a) >>= fun _ => (as.map f).forM g) = _
    rw [ih]
    rfl

/-- Work that leaves a part of the state as it was. -/
def Keeps (part : σ → τ) (x : Action σ α) : Prop :=
  ∀ s, part (x.runFrom s).2 = part s

section Keeps

variable {part : σ → τ}

theorem keeps_pure (a : α) : Keeps part (pure a : Action σ α) :=
  fun _ => rfl

theorem keeps_throw (e : Error) : Keeps part (throw e : Action σ α) :=
  fun _ => rfl

theorem keeps_lift (x : Except Error α) : Keeps part (liftM x : Action σ α) :=
  fun _ => rfl

theorem keeps_get : Keeps part (get : Action σ σ) :=
  fun _ => rfl

theorem Keeps.bind (hx : Keeps part x) (hf : ∀ a, Keeps part (f a)) : Keeps part (x >>= f) := by
  intro s
  have h := hx s
  rcases hrun : x.runFrom s with ⟨e | a, s'⟩
  · rw [runFrom_bind_error hrun]
    rwa [hrun] at h
  · rw [runFrom_bind_ok hrun, hf a s']
    rwa [hrun] at h

end Keeps

/-! ## Work that keeps an invariant -/

/-- Work that keeps an invariant of the state, and whose results have a property. -/
def Ensures (I : σ → Prop) (x : Action σ α) (Q : α → Prop) : Prop :=
  ∀ s, I s → I (x.runFrom s).2 ∧ ∀ a, (x.runFrom s).1 = .ok a → Q a

section Ensures

variable {I : σ → Prop} {Q : α → Prop} {R : β → Prop}

theorem Ensures.bind (hx : Ensures I x Q) (hf : ∀ a, Q a → Ensures I (f a) R) :
    Ensures I (x >>= f) R := by
  intro s hs
  obtain ⟨hI, hQ⟩ := hx s hs
  rcases hrun : x.runFrom s with ⟨e | a, s'⟩
  · rw [hrun] at hI
    rw [runFrom_bind_error hrun]
    exact ⟨hI, nofun⟩
  · rw [hrun] at hI hQ
    rw [runFrom_bind_ok hrun]
    exact hf a (hQ a rfl) s' hI

/-- Work on a part of a state, of which the invariant says nothing but what it says of the part. -/
theorem Ensures.on {J : τ → Prop} {part : τ → σ} {replace : τ → σ → τ} (hx : Ensures I x Q)
    (hpart : ∀ t, J t → I (part t)) (hreplace : ∀ t s, J t → I s → J (replace t s)) :
    Ensures J (x.on part replace) Q := by
  intro t ht
  obtain ⟨hI, hQ⟩ := hx (part t) (hpart t ht)
  rw [runFrom_on]
  exact ⟨hreplace t _ ht hI, hQ⟩

end Ensures

end Action

namespace Rendering

variable {α : Type} {settings : Settings} {selector : String} {directive : Option String}
variable {fallback a : α} {action : Action Rendering α} {r r' : Rendering} {e : Error}

/-- Work that succeeds is not reported. -/
theorem attempt_ok (h : action.runFrom r = (.ok a, r')) :
    (attempt settings selector directive fallback action).runFrom r = (.ok a, r') :=
  Action.runFrom_tryCatch_ok h

/-- A failure that has to end the rendering is passed on. -/
theorem attempt_throws (h : action.runFrom r = (.error e, r'))
    (he : (settings.strict || !e.isDirectiveLevel) = true) :
    (attempt settings selector directive fallback action).runFrom r = (.error e, r') := by
  rw [attempt, Action.runFrom_tryCatch_error h]
  refine Action.runFrom_bind_error ?_
  rw [report, if_pos he]
  rfl

/-- Any other failure is put down, and the work has the fallback for its result. -/
theorem attempt_records (h : action.runFrom r = (.error e, r'))
    (he : (settings.strict || !e.isDirectiveLevel) = false) :
    (attempt settings selector directive fallback action).runFrom r =
      (.ok fallback, { r' with
        diagnostics := r'.diagnostics ++ [⟨selector, directive, e.message⟩] }) := by
  have hreport : (report settings selector directive e).runFrom r' =
      (.ok (), { r' with
        diagnostics := r'.diagnostics ++ [⟨selector, directive, e.message⟩] }) := by
    rw [report, if_neg (by simp [he])]
    rfl
  rw [attempt, Action.runFrom_tryCatch_error h]
  exact Action.runFrom_bind_ok hreport

/-- Fetching changes the importer alone. -/
theorem runFrom_fetchMarkup (location : ImportLocation) (control : CacheControl) (r : Rendering) :
    (fetchMarkup settings location control).runFrom r =
      ((r.importer.resolve location control settings.grammar).1,
        { r with importer := (r.importer.resolve location control settings.grammar).2 }) := by
  rw [fetchMarkup, Action.runFrom_bind_ok (Action.runFrom_get r)]
  cases r.importer.resolve location control settings.grammar with
  | mk markup importer => cases markup <;> rfl

end Rendering

/-! ## Contents -/

/-- The contents that a node and its copies are filled with when the node is repeated. -/
def Content.repeated : Content → List Content
  | .list items => items
  | value => [value]

/-- A property `P` of contents and a property `Q` of directives that each has if its parts have
them. -/
structure ContentSteps (P : Content → Prop) (Q : Directive → Prop) : Prop where
  text : ∀ text, P (.text text)
  list : ∀ items, (∀ c ∈ items, P c) → P (.list items)
  stack : ∀ entries, (∀ e ∈ entries, P e.2) → P (.stack entries)
  directives : ∀ params items, (∀ d ∈ items, Q d) → P (.directives params items)
  setAttributes : ∀ mode values, Q (.setAttributes mode values)
  content : ∀ mode value, P value → Q (.content mode value)
  children : ∀ mode value, P value → Q (.children mode value)
  fetch : ∀ mode location, Q (.fetch mode location)
  control : ∀ control, Q (.control control)
  repetition : ∀ value, (∀ c ∈ value.repeated, P c) → Q (.repetition value)

namespace ContentSteps

variable {P : Content → Prop} {Q : Directive → Prop}

mutual

/-- All contents have the property. -/
theorem holds (h : ContentSteps P Q) : ∀ c, P c
  | .text text => h.text text
  | .list items => h.list items (h.holdsAll items)
  | .stack entries => h.stack entries (h.holdsEntries entries)
  | .directives params items => h.directives params items (h.directivesHold items)

/-- So have all items of a list. -/
theorem holdsAll (h : ContentSteps P Q) : ∀ cs : List Content, ∀ c ∈ cs, P c
  | [] => List.forall_mem_nil _
  | c :: cs => List.forall_mem_cons.2 ⟨h.holds c, h.holdsAll cs⟩

/-- So have the contents of all entries of a stack. -/
theorem holdsEntries (h : ContentSteps P Q) :
    ∀ entries : List (String × Content), ∀ e ∈ entries, P e.2
  | [] => List.forall_mem_nil _
  | (_, c) :: entries => List.forall_mem_cons.2 ⟨h.holds c, h.holdsEntries entries⟩

/-- All directives have the other property. -/
theorem directiveHolds (h : ContentSteps P Q) : ∀ d, Q d
  | .setAttributes mode values => h.setAttributes mode values
  | .content mode value => h.content mode value (h.holds value)
  | .children mode value => h.children mode value (h.holds value)
  | .fetch mode location => h.fetch mode location
  | .control control => h.control control
  | .repetition (.list items) => h.repetition (.list items) (h.holdsAll items)
  | .repetition (.text text) =>
    h.repetition (.text text) (List.forall_mem_singleton.2 (h.text text))
  | .repetition (.stack entries) =>
    h.repetition (.stack entries)
      (List.forall_mem_singleton.2 (h.stack entries (h.holdsEntries entries)))
  | .repetition (.directives params items) =>
    h.repetition (.directives params items)
      (List.forall_mem_singleton.2 (h.directives params items (h.directivesHold items)))

/-- So have all directives of a set. -/
theorem directivesHold (h : ContentSteps P Q) : ∀ ds : List Directive, ∀ d ∈ ds, Q d
  | [] => List.forall_mem_nil _
  | d :: ds => List.forall_mem_cons.2 ⟨h.directiveHolds d, h.directivesHold ds⟩

end

end ContentSteps

/-! ## Jobs -/

theorem Content.jobs_eq_map (s : Settings) (cs : List Content) :
    Content.jobs s cs = cs.map (Content.job s) := by
  induction cs with
  | nil => rfl
  | cons c cs ih => rw [Content.jobs, ih, List.map_cons]

theorem Content.entryJobs_eq_map (s : Settings) (entries : List (String × Content)) :
    Content.entryJobs s entries = entries.map fun e => (e.1, e.2.job s) := by
  induction entries with
  | nil => rfl
  | cons e entries ih => rw [Content.entryJobs, ih, List.map_cons]

theorem Directive.jobs_eq_map (s : Settings) (ds : List Directive) :
    Directive.jobs s ds = ds.map fun d => (d, d.job s) := by
  induction ds with
  | nil => rfl
  | cons d ds ih => rw [Directive.jobs, ih, List.map_cons]

/-- Repeating fills a node and its copies, with a list or with the only thing there is. -/
theorem Directive.job_repetition (s : Settings) (value : Content) :
    (Directive.repetition value).job s =
      Rendering.fillItems s true (value.repeated.map (Content.job s)) := by
  cases value with
  | list items => rw [Directive.job, Content.jobs_eq_map, Content.repeated]
  | text text => rfl
  | stack entries => rfl
  | directives params items => rfl

namespace Rendering

/-- Entries whose jobs are made from what they hold. -/
theorem fillEntries_map (settings : Settings) (F : Content → Job) (context : Option NodeId)
    (here : Situation) (entries : List (String × Content)) :
    fillEntries settings context here (entries.map fun e => (e.1, F e.2)) = (do
      let list ← onPage (WorkingList.populate (.named (entries.map Prod.fst)) context none false
        settings.keepIndentation)
      (entries.zip list.slots).forM fun e =>
        fillAttached settings (F e.1.2) (entrySituation here e.1.1) e.2) := by
  simp only [fillEntries, List.map_map, List.zip_map_left, Action.forM_map]
  rfl

/-- Items whose jobs are made from what they hold. -/
theorem fillItems_map (settings : Settings) (F : Content → Job) (itself : Bool)
    (cs : List Content) (here : Situation) (node : NodeId) :
    fillItems settings itself (cs.map F) here node = (do
      let strategy ← strategyOf settings here
      let list ← onPage (WorkingList.populate (.items cs.length) (some node) (some strategy) itself
        settings.keepIndentation)
      (cs.zip list.slots).forM fun e =>
        e.2.forM (fillNode settings (F e.1) (itemSituation here))
      return some node) := by
  simp only [fillItems, List.length_map, List.zip_map_left, Action.forM_map]
  rfl

end Rendering

namespace Directive

variable {α β : Type}

theorem ranked_map (rank? : α → Option Nat) (f : β → α) (previous : Nat) (bs : List β) :
    ranked rank? previous (bs.map f) =
      (ranked (fun b => rank? (f b)) previous bs).map fun e => (e.1, f e.2) := by
  induction bs generalizing previous with
  | nil => rfl
  | cons b bs ih => simp only [List.map_cons, ranked, ih]

/-- Things are put in order by their ranks alone. -/
theorem orderedBy_map (rank? : α → Option Nat) (f : β → α) (bs : List β) :
    orderedBy rank? (bs.map f) = (orderedBy (fun b => rank? (f b)) bs).map f := by
  have sorted := List.map_mergeSort (r := fun a b : Nat × β => decide (a.1 ≤ b.1))
    (s := fun a b : Nat × α => decide (a.1 ≤ b.1)) (f := fun e => (e.1, f e.2))
    (l := ranked (fun b => rank? (f b)) 0 bs) fun _ _ _ _ => rfl
  rw [orderedBy, orderedBy, ranked_map, ← sorted, List.map_map, List.map_map]
  rfl

/-- The jobs of directives in order are the jobs of the directives in order. -/
theorem orderedBy_jobs (F : Directive → β) (ds : List Directive) :
    orderedBy (fun e : Directive × β => e.1.rank?) (ds.map fun d => (d, F d)) =
      (ordered ds).map fun d => (d, F d) :=
  orderedBy_map _ _ ds

theorem mem_ordered {d : Directive} {ds : List Directive} : d ∈ ordered ds ↔ d ∈ ds :=
  (orderedBy_perm rank? ds).mem_iff

end Directive

end MarkupTemplate

import MarkupTemplate.Proofs.Runs

/-!
# Compositional properties

Every job is composed of a few kinds of work. A property of work that the composition keeps holds of
all jobs, if it holds of these.

* `Rendering.Compositional` — such a property.
* `Compositional.jobs` — it holds of what every value and every directive does.
* `Compositional.pass` — and of a pass.
-/

namespace MarkupTemplate.Rendering

variable {α β : Type}

/-- A property of work that holds of what jobs are composed of, and that their composition keeps. -/
structure Compositional (settings : Settings) (P : ∀ {α : Type}, Action Rendering α → Prop) :
    Prop where
  lift : ∀ {α : Type} (x : Except Error α), P (liftM x : Action Rendering α)
  bind : ∀ {α β : Type} {x : Action Rendering α} {f : α → Action Rendering β},
    P x → (∀ a, P (f a)) → P (x >>= f)
  attempt : ∀ {α : Type} (selector : String) (directive : Option String) (fallback : α)
    {x : Action Rendering α}, P x → P (attempt settings selector directive fallback x)
  document : P document
  edit : ∀ change : Document → Document, P (edit change)
  touch : ∀ id, P (touch id)
  fetchMarkup : ∀ (location : ImportLocation) (control : CacheControl),
    P (fetchMarkup settings location control)
  populate : ∀ (targets : Targets) (source : Option NodeId) (strategy : Option RepeatStrategy)
    (itself : Bool),
    P (onPage (WorkingList.populate targets source strategy itself settings.keepIndentation))

namespace Compositional

variable {settings : Settings} {P : ∀ {α : Type}, Action Rendering α → Prop}
variable (h : Compositional settings P)
include h

theorem pure (a : α) : P (Pure.pure a : Action Rendering α) :=
  h.lift (.ok a)

theorem throw (e : Error) : P (MonadExcept.throw e : Action Rendering α) :=
  h.lift (.error e)

theorem forM {f : β → Action Rendering Unit} :
    ∀ {bs : List β}, (∀ b ∈ bs, P (f b)) → P (bs.forM f)
  | [], _ => h.pure ()
  | _ :: _, hbs =>
    have ⟨hb, hbs⟩ := List.forall_mem_cons.1 hbs
    h.bind hb fun _ => forM hbs

/-! ## Content -/

theorem insertNothing (policy : EmptyPolicy) (mode : InsertMode) (node : NodeId) :
    P (insertNothing policy mode node) := by
  cases policy with
  | doNothing =>
    cases mode with
    | replace => exact h.bind (h.edit _) fun _ => h.pure _
    | append | prepend => exact h.pure _
  | clear | setFlag | clearAndSetFlag => exact h.bind (h.edit _) fun _ => h.pure _
  | noRender => exact h.bind h.document fun _ => h.bind (h.edit _) fun _ => h.pure _

theorem insertContent (text : String) (here : Situation) (node : NodeId) :
    P (insertContent settings text here node) := by
  rw [Rendering.insertContent]
  split
  · exact h.insertNothing _ _ _
  · split <;> exact h.bind (h.edit _) fun _ => h.pure _

theorem applyImport (location : ImportLocation) (here : Situation) (node : NodeId) :
    P (applyImport settings location here node) :=
  h.bind (h.fetchMarkup _ _) fun markup => h.insertContent markup _ _

theorem applyControl (control : RenderControl) (here : Situation) (node : NodeId) :
    P (applyControl control here node) := by
  cases control with
  | keep => exact h.pure _
  | remove | unwrap => exact h.bind (h.edit _) fun _ => h.pure _
  | rename name =>
    refine h.bind h.document fun d => ?_
    split
    · exact h.pure _
    · split
      · exact h.bind (h.edit _) fun _ => h.bind (h.touch _) fun _ => h.pure _
      · exact h.throw _

/-! ## Values that are applied to nodes -/

theorem fill {job : Job} (hjob : ∀ here node, P (job here node)) (here : Situation)
    (node : NodeId) : P (fill job here node) :=
  h.bind (h.touch _) fun _ => h.bind h.document fun _ => h.bind (h.lift _) fun _ => hjob _ _

theorem fillNode {job : Job} (hjob : ∀ here node, P (job here node)) (here : Situation)
    (node : NodeId) : P (fillNode settings job here node) :=
  h.attempt _ _ _ (h.bind (h.fill hjob here node) fun _ => h.pure ())

theorem fillAttached {job : Job} (hjob : ∀ here node, P (job here node)) (here : Situation)
    (slot : List NodeId) : P (fillAttached settings job here slot) := by
  refine h.forM fun node _ => h.bind h.document fun d => ?_
  split
  · exact h.fillNode hjob here node
  · exact h.pure ()

theorem fillEntries {F : Content → Job} {entries : List (String × Content)}
    (hF : ∀ e ∈ entries, ∀ here node, P (F e.2 here node)) (context : Option NodeId)
    (here : Situation) :
    P (fillEntries settings context here (entries.map fun e => (e.1, F e.2))) := by
  rw [fillEntries_map]
  refine h.bind (h.populate _ _ _ _) fun list => h.forM fun e he => ?_
  exact h.fillAttached (hF e.1 (List.of_mem_zip he).1) _ _

theorem fillItems {F : Content → Job} {cs : List Content}
    (hF : ∀ c ∈ cs, ∀ here node, P (F c here node)) (itself : Bool) (here : Situation)
    (node : NodeId) : P (fillItems settings itself (cs.map F) here node) := by
  rw [fillItems_map]
  refine h.bind (h.lift _) fun strategy => h.bind (h.populate _ _ _ _) fun list =>
    h.bind (h.forM fun e he => h.forM fun node _ => ?_) fun _ => h.pure _
  exact h.fillNode (hF e.1 (List.of_mem_zip he).1) _ _

theorem applyInOrder (here : Situation) {G : Directive → Job} : ∀ {ds : List Directive},
    (∀ d ∈ ds, ∀ here node, P (G d here node)) → ∀ node,
      P (applyInOrder settings here node (ds.map fun d => (d, G d)))
  | [], _, node => by cases node <;> exact h.pure ()
  | _ :: _, _, none => h.pure ()
  | d :: ds, hG, some node => by
    obtain ⟨hd, hds⟩ := List.forall_mem_cons.1 hG
    refine h.bind h.document fun doc => ?_
    split
    · exact h.bind (h.attempt _ _ _ (hd here node)) fun next => applyInOrder here hds next
    · exact h.pure ()

theorem fillDirectives {G : Directive → Job} {ds : List Directive}
    (hG : ∀ d ∈ ds, ∀ here node, P (G d here node)) (params : Params) (here : Situation)
    (node : NodeId) : P (fillDirectives settings params (ds.map fun d => (d, G d)) here node) := by
  rw [Rendering.fillDirectives, Directive.orderedBy_jobs]
  refine h.bind h.document fun doc => h.bind (h.lift _) fun own => ?_
  exact h.bind (h.applyInOrder _ (fun d hd => hG d (Directive.mem_ordered.1 hd)) _) fun _ =>
    h.pure _

/-- **The property holds of every job.** -/
theorem jobs :
    ContentSteps (fun c => ∀ here node, P (c.job settings here node))
      (fun d => ∀ here node, P (d.job settings here node)) where
  text text here node := h.insertContent text here node
  list items hitems here node := by
    rw [Content.job, Content.jobs_eq_map]
    exact h.fillItems hitems false here node
  stack entries hentries here node := by
    rw [Content.job, Content.entryJobs_eq_map]
    exact h.bind (h.fillEntries hentries _ _) fun _ => h.pure _
  directives params items hitems here node := by
    rw [Content.job, Directive.jobs_eq_map]
    exact h.fillDirectives hitems params here node
  setAttributes mode values here node := h.bind (h.edit _) fun _ => h.pure (some node)
  content mode value hvalue here node := hvalue _ node
  children mode value hvalue here node := hvalue _ node
  fetch mode location here node := h.applyImport location _ node
  control control here node := h.applyControl control here node
  repetition value hvalue here node := by
    rw [Directive.job_repetition]
    exact h.fillItems hvalue true here node

/-- **The property holds of every pass.** -/
theorem pass (data : DataStack) : P (pass settings data) := by
  rw [Rendering.pass, Content.entryJobs_eq_map]
  exact h.fillEntries (fun e _ => h.jobs.holds e.2) _ _

end Compositional

end MarkupTemplate.Rendering

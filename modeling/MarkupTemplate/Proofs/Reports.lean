import MarkupTemplate.Proofs.Strictness

/-!
# Reports

What is reported has had no effect: the document right after work that is reported is the one right
before it.

* `Journal` — a rendering with a record of its reports, each with the documents around the work that
  it is about. `Journal.complete` is everything done with a page, with such a record.
* `Rendering.Grave` — work that fails only with errors that end the rendering.
* `Rendering.Quiet`, `Rendering.Clean` — work whose other failures, or whose failures of any kind,
  leave the document as it was.
* `Journal.Accounts` — recorded work that is the plain work, each report of it without effect.
-/

namespace MarkupTemplate

/-- A report with the documents before and after the work that it is about. -/
structure Report where
  diagnostic : Diagnostic
  before : Document
  after : Document

/-- A rendering with a record of its reports. -/
structure Journal where
  rendering : Rendering
  reports : List Report

namespace Journal

variable {α β : Type}

/-- A page that nothing was done with. -/
def start (page : Page) (importer : Importer) : Journal :=
  ⟨.start page importer, []⟩

/-- Work that reports nothing has nothing to record. -/
def lift (action : Action Rendering α) : Action Journal α :=
  action.on Journal.rendering fun j r => { j with rendering := r }

/-- Work whose failure is reported, and the documents around it recorded. -/
def attempt (settings : Settings) (selector : String) (directive : Option String)
    (fallback : α) (action : Action Journal α) : Action Journal α := do
  let before ← lift Rendering.document
  tryCatch action fun e => do
    let after ← lift Rendering.document
    lift (Rendering.report settings selector directive e)
    modify fun j =>
      { j with reports := j.reports ++ [⟨⟨selector, directive, e.message⟩, before, after⟩] }
    return fallback

/-! ## Recorded work

Each of these is the work of the same name on a rendering, with a record of its reports. -/

/-- A value ready to be applied to a node. -/
abbrev Job := Situation → NodeId → Action Journal (Option NodeId)

def fill (job : Journal.Job) : Journal.Job := fun here node => do
  lift (Rendering.touch node)
  let own ← (← lift Rendering.document).nodeParams node
  job { here with params := own.orElse here.params } node

def fillNode (settings : Settings) (job : Journal.Job) (here : Situation) (node : NodeId) :
    Action Journal Unit :=
  attempt settings here.selector none () (discard (fill job here node))

def fillAttached (settings : Settings) (job : Journal.Job) (here : Situation)
    (slot : List NodeId) : Action Journal Unit :=
  slot.forM fun node => do
    if (← lift Rendering.document).isAttached node then fillNode settings job here node

def fillEntries (settings : Settings) (context : Option NodeId) (here : Situation)
    (entries : List (String × Journal.Job)) : Action Journal Unit := do
  let list ← lift (Rendering.onPage
    (WorkingList.populate (.named (entries.map Prod.fst)) context none false
      settings.keepIndentation))
  (entries.zip list.slots).forM fun e =>
    fillAttached settings e.1.2 (Rendering.entrySituation here e.1.1) e.2

def fillStack (settings : Settings) (entries : List (String × Journal.Job)) : Journal.Job :=
  fun here node => do
    fillEntries settings (some node) { here with params := here.params.inherited } entries
    return some node

def fillItems (settings : Settings) (itself : Bool) (jobs : List Journal.Job) : Journal.Job :=
  fun here node => do
    let strategy ← Rendering.strategyOf settings here
    let list ← lift (Rendering.onPage
      (WorkingList.populate (.items jobs.length) (some node) (some strategy) itself
        settings.keepIndentation))
    (jobs.zip list.slots).forM fun e =>
      e.2.forM (fillNode settings e.1 (Rendering.itemSituation here))
    return some node

def withMode (mode : InsertMode) (job : Journal.Job) : Journal.Job := fun here node =>
  job { here with mode := Rendering.modeOver mode here.mode } node

def applyInOrder (settings : Settings) (here : Situation) :
    Option NodeId → List (Directive × Journal.Job) → Action Journal Unit
  | some node, (directive, job) :: rest => do
    if (← lift Rendering.document).isAttached node then
      let next ← attempt settings here.selector (some directive.key) (some node) (job here node)
      applyInOrder settings here next rest
  | _, _ => return ()

def fillDirectives (settings : Settings) (params : Params)
    (directives : List (Directive × Journal.Job)) : Journal.Job := fun here node => do
  let own ← (← lift Rendering.document).nodeParams node
  let here := { here with params := own.orElse (params.orElse here.params) }
  applyInOrder settings here (some node) (Directive.orderedBy (fun e => e.1.rank?) directives)
  return some node

mutual

/-- What a value does with a node. -/
def valueJob (settings : Settings) : Content → Journal.Job
  | .text text => fun here node => lift (Rendering.insertContent settings text here node)
  | .list items => fillItems settings false (valueJobs settings items)
  | .stack entries => fillStack settings (entryJobs settings entries)
  | .directives params items => fillDirectives settings params (directiveJobs settings items)

/-- What each of several values does. -/
def valueJobs (settings : Settings) : List Content → List Journal.Job
  | [] => []
  | c :: cs => valueJob settings c :: valueJobs settings cs

/-- What each value of a stack does, by selector. -/
def entryJobs (settings : Settings) : List (String × Content) → List (String × Journal.Job)
  | [] => []
  | (key, c) :: rest => (key, valueJob settings c) :: entryJobs settings rest

/-- What a directive does with a node. -/
def directiveJob (settings : Settings) : Directive → Journal.Job
  | .setAttributes mode values =>
    withMode mode fun here node => lift (Rendering.applyAttributes values here node)
  | .content mode value => withMode mode (valueJob settings value)
  | .children mode value => withMode mode (valueJob settings value)
  | .fetch mode location =>
    withMode mode fun here node => lift (Rendering.applyImport settings location here node)
  | .control control => fun here node => lift (Rendering.applyControl control here node)
  | .repetition (.list items) => fillItems settings true (valueJobs settings items)
  | .repetition value => fillItems settings true [valueJob settings value]

/-- What each of several directives does. -/
def directiveJobs (settings : Settings) : List Directive → List (Directive × Journal.Job)
  | [] => []
  | d :: ds => (d, directiveJob settings d) :: directiveJobs settings ds

end

def pass (settings : Settings) (data : DataStack) : Action Journal Unit :=
  fillEntries settings none .outermost (entryJobs settings data)

def passAgain (settings : Settings) (data : DataStack) : Action Journal Unit := do
  lift (modify Rendering.turnOver)
  pass settings data
  lift (Rendering.edit fun d => d.stripAttribute settledMark)

/-- Everything that is done with a page. -/
def complete (settings : Settings) (imports : List PageImport) (data : DataStack) :
    Action Journal Unit := do
  lift (Rendering.spliceImports settings imports)
  pass settings data
  if settings.fillInserted then passAgain settings data

end Journal

/-! ## Failures that end a rendering -/

namespace Action

variable {σ α β : Type} {x : Action σ α} {f : α → Action σ β}

/-- Work that fails only with errors that end the rendering. -/
def Grave (x : Action σ α) : Prop :=
  ∀ s e, (x.runFrom s).1 = .error e → e.isDirectiveLevel = false

theorem Grave.bind (hx : x.Grave) (hf : ∀ a, (f a).Grave) : (x >>= f).Grave := by
  intro s e he
  rcases hrun : x.runFrom s with ⟨e' | a, s'⟩
  · rw [runFrom_bind_error hrun] at he
    cases he
    exact hx s e (by rw [hrun])
  · rw [runFrom_bind_ok hrun] at he
    exact hf a s' e he

end Action

namespace WorkingList

open MarkupTemplate.Action

end WorkingList

/-! ## Queries -/

namespace Page

open MarkupTemplate.Action

end Page

namespace WorkingList

open MarkupTemplate.Action

end WorkingList

/-! ## Failures that leave the document alone -/

namespace Rendering

open MarkupTemplate.Action

variable {α β : Type} {x : Action Rendering α} {f : α → Action Rendering β}

/-- Work that leaves the document as it was, unless it succeeds or ends the rendering. -/
def Quiet (x : Action Rendering α) : Prop :=
  ∀ r e, (x.runFrom r).1 = .error e → e.isDirectiveLevel = true →
    (x.runFrom r).2.page.document = r.page.document

/-- Work that leaves the document as it was, unless it succeeds. -/
def Clean (x : Action Rendering α) : Prop :=
  ∀ r e, (x.runFrom r).1 = .error e → (x.runFrom r).2.page.document = r.page.document

/-- Quiet work, and then work that fails only with errors that end the rendering. -/
theorem Quiet.bind (hx : Quiet x) (hf : ∀ a, (f a).Grave) : Quiet (x >>= f) := by
  intro r e he hlevel
  rcases hrun : x.runFrom r with ⟨e' | a, r'⟩
  · rw [runFrom_bind_error hrun] at he ⊢
    cases he
    have quiet := hx r e (by rw [hrun]) hlevel
    rwa [hrun] at quiet
  · rw [runFrom_bind_ok hrun] at he
    exact absurd (hf a r' e he) (by simp [hlevel])

section Tolerant

variable {settings : Settings} (tolerant : settings.strict = false)
include tolerant

end Tolerant

end Rendering

/-! ## Accounts -/

namespace Journal

open MarkupTemplate.Action

variable {α β : Type} {x : Action Journal α} {y : Action Rendering α}

theorem runFrom_lift (y : Action Rendering α) (j : Journal) :
    (lift y).runFrom j =
      ((y.runFrom j.rendering).1, { j with rendering := (y.runFrom j.rendering).2 }) := by
  rw [lift, runFrom_on]

section Attempt

variable {settings : Settings} {selector : String} {directive : Option String}
variable {fallback a : α} {j j' : Journal} {e : Error}

/-- What is attempted, and the document before it. -/
theorem runFrom_attempt (j : Journal) :
    (attempt settings selector directive fallback x).runFrom j =
      (tryCatch x fun e => do
        let after ← lift Rendering.document
        lift (Rendering.report settings selector directive e)
        modify fun k => { k with reports := k.reports ++
          [⟨⟨selector, directive, e.message⟩, j.rendering.page.document, after⟩] }
        return fallback).runFrom j :=
  runFrom_bind_ok (runFrom_lift Rendering.document j)

theorem attempt_ok (h : x.runFrom j = (.ok a, j')) :
    (attempt settings selector directive fallback x).runFrom j = (.ok a, j') := by
  rw [runFrom_attempt, runFrom_tryCatch_ok h]

theorem attempt_throws (h : x.runFrom j = (.error e, j'))
    (he : (settings.strict || !e.isDirectiveLevel) = true) :
    (attempt settings selector directive fallback x).runFrom j = (.error e, j') := by
  rw [runFrom_attempt, runFrom_tryCatch_error h, runFrom_bind_ok (runFrom_lift _ _)]
  refine runFrom_bind_error ?_
  rw [runFrom_lift, Rendering.report, if_pos he]
  rfl

theorem attempt_records (h : x.runFrom j = (.error e, j'))
    (he : (settings.strict || !e.isDirectiveLevel) = false) :
    (attempt settings selector directive fallback x).runFrom j =
      (.ok fallback,
        { rendering := { j'.rendering with
            diagnostics := j'.rendering.diagnostics ++ [⟨selector, directive, e.message⟩] }
          reports := j'.reports ++ [⟨⟨selector, directive, e.message⟩, j.rendering.page.document,
            j'.rendering.page.document⟩] }) := by
  have hreport : (lift (Rendering.report settings selector directive e)).runFrom j' =
      (.ok (), { j' with rendering := { j'.rendering with
        diagnostics := j'.rendering.diagnostics ++ [⟨selector, directive, e.message⟩] } }) := by
    rw [runFrom_lift, Rendering.report, if_neg (by simp [he])]
    rfl
  rw [runFrom_attempt, runFrom_tryCatch_error h, runFrom_bind_ok (runFrom_lift _ _)]
  exact runFrom_bind_ok hreport

end Attempt

/-- Recorded work that is the plain work: it ends as that does, everything that is reported is
recorded, and nothing that is recorded had an effect. -/
def Accounts (x : Action Journal α) (y : Action Rendering α) : Prop :=
  ∀ j, y.runFrom j.rendering = ((x.runFrom j).1, (x.runFrom j).2.rendering) ∧
    ∃ more : List Report, (x.runFrom j).2.reports = j.reports ++ more ∧
      (x.runFrom j).2.rendering.diagnostics =
        j.rendering.diagnostics ++ more.map Report.diagnostic ∧
      ∀ report ∈ more, report.after = report.before

theorem Accounts.bind {f : α → Action Journal β} {g : α → Action Rendering β}
    (hx : Accounts x y) (hf : ∀ a, Accounts (f a) (g a)) : Accounts (x >>= f) (y >>= g) := by
  intro j
  obtain ⟨hrun, more, hreports, hdiagnostics, heffect⟩ := hx j
  rcases hxj : x.runFrom j with ⟨e | a, j'⟩
  · rw [hxj] at hrun hreports hdiagnostics
    rw [runFrom_bind_error hxj, runFrom_bind_error hrun]
    exact ⟨rfl, more, hreports, hdiagnostics, heffect⟩
  · rw [hxj] at hrun hreports hdiagnostics
    rw [runFrom_bind_ok hxj, runFrom_bind_ok hrun]
    obtain ⟨hrun', more', hreports', hdiagnostics', heffect'⟩ := hf a j'
    refine ⟨hrun', more ++ more', ?_, ?_, List.forall_mem_append.2 ⟨heffect, heffect'⟩⟩
    · rw [hreports', hreports, List.append_assoc]
    · rw [hdiagnostics', hdiagnostics, List.map_append, List.append_assoc]

variable {settings : Settings} {job : Journal.Job} {plain : MarkupTemplate.Job}

theorem entryJobs_eq_map (s : Settings) (entries : List (String × Content)) :
    entryJobs s entries = entries.map fun e => (e.1, valueJob s e.2) := by
  induction entries with
  | nil => rfl
  | cons e entries ih => rw [entryJobs, ih, List.map_cons]

variable {F : Content → Journal.Job} {F' : Content → MarkupTemplate.Job}
variable {G : Directive → Journal.Job} {G' : Directive → MarkupTemplate.Job}

end Journal

end MarkupTemplate

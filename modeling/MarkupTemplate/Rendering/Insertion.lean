import MarkupTemplate.Html.Detection
import MarkupTemplate.Rendering.Basic

/-!
# Inserting content

* `Rendering.insertContent` — a text put into a node, as markup or as text.
* `Rendering.insertNothing` — what a policy does where there is nothing to insert.
* `Document.nodeParams` — the parameters that an element carries as attributes.
-/

namespace MarkupTemplate

/-- What the names of attributes for the engine begin with. -/
def attributeMarker : String :=
  "data-tpl-"

/-- The flag of elements for which there was no content. -/
def emptyMark : String :=
  "data-tpl-content_empty"

namespace Document

/-- The value of an attribute that carries a parameter, read as what it stands for. -/
def param? {α : Type} (d : Document) (id : NodeId) (name : String)
    (read : String → Except Error α) : Except Error (Option α) :=
  (d.attribute? id (attributeMarker ++ name)).mapM read

/-- The parameters that an element carries as attributes. -/
def nodeParams (d : Document) (id : NodeId) : Except Error Params := do
  return {
    contentType := ← d.param? id "content_type" ContentType.read
    repetition := ← d.param? id "repeat_fn" RepeatStrategy.read
    onEmpty := ← d.param? id "on_content_empty" EmptyPolicy.read
    cache := ← d.param? id "cache" CacheControl.read }

/-- The parent of a node, if it is an element. -/
def parentElement? (d : Document) (id : NodeId) : Option NodeId :=
  (d.parent? id).filter d.isElement

end Document

namespace Rendering

/-- What a policy does where there is nothing to insert. The parent of a node that goes takes its
place. -/
def insertNothing (policy : EmptyPolicy) (mode : InsertMode) (node : NodeId) :
    Action Rendering (Option NodeId) := do
  match policy with
  | .doNothing =>
    if mode = .replace then edit fun d => d.clear node
    return some node
  | .clear =>
    edit fun d => d.clear node
    return some node
  | .setFlag =>
    edit fun d => d.setAttribute node emptyMark ""
    return some node
  | .clearAndSetFlag =>
    edit fun d => (d.clear node).setAttribute node emptyMark ""
    return some node
  | .noRender =>
    let parent := (← document).parentElement? node
    edit fun d => d.detach node
    return parent

/-- What a text is inserted as: as its parameters or the settings say, else as what it looks
like. -/
def contentTypeOf (settings : Settings) (params : Params) (text : String) : ContentType :=
  (params.contentType.or settings.contentType).getD
    (if looksLikeMarkup text then .markup else .cdata)

/-- A text put into a node. -/
def insertContent (settings : Settings) (text : String) : Job := fun here node => do
  if text.isEmpty then
    insertNothing (here.params.onEmpty.getD settings.onEmpty) here.mode node
  else
    match contentTypeOf settings here.params text with
    | .markup => edit fun d => d.insertMarkup node text here.mode
    | .text | .cdata => edit fun d => d.insertText node text here.mode
    return some node

end Rendering

end MarkupTemplate

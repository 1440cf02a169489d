import MarkupTemplate.Html.Node

/-!
# Paths of nodes

* `Markup.nodePath` — the location path that leads to a node of a tree, like `/html/body/ul/li[2]`.

Elements are counted among the sibling elements of the same tag, and only if there are several.
-/

namespace MarkupTemplate.Markup

/-- The tag at the root of a tree, in lower case. -/
def tag? (m : Markup) : Option String :=
  m.label.tag?

/-- The step to a node from its parent, given the siblings before it, and after it. -/
def pathSegment (before : List Markup) (m : Markup) (after : List Markup) : String :=
  match m.tag? with
  | some tag =>
    let same := fun t : Markup => t.tag? == some tag
    if before.any same || after.any same then
      tag ++ "[" ++ toString (before.countP same + 1) ++ "]"
    else tag
  | none => if m.label.isText then "text()" else "node()"

/-- The steps to the end of a path, given the steps to a node and the path on from there. Steps
start anew at each document node. -/
def pathSegments (steps : List String) : Path → Markup → List String
  | [], _ => steps
  | i :: p, m =>
    match m.children[i]? with
    | none => steps
    | some c =>
      let steps :=
        if c.label.isDocument then []
        else steps ++ [pathSegment (m.children.take i) c (m.children.drop (i + 1))]
      pathSegments steps p c

/-- The location path that leads to a node. In a tree without document node it starts with the
root of the tree. -/
def nodePath (m : Markup) (p : Path) : String :=
  let start := if m.label.isDocument then [] else [pathSegment [] m []]
  "/" ++ String.intercalate "/" (pathSegments start p m)

end MarkupTemplate.Markup

import MarkupTemplate.Tree
import MarkupTemplate.Text.Pieces

/-!
# Nodes of a document

What the nodes of an HTML document hold, without their identity.

* `NodeData` — the document node, a doctype, an element, a text or a comment.
* `Markup` — a tree of such nodes: what reading makes and writing takes.
* `Attributes` — operations on attribute lists by local name.
* `Markup.text` — the text of a node: everything written in it and below it.
-/

namespace MarkupTemplate

/-- The vocabularies an element can belong to. -/
inductive Namespace where
  | html
  | svg
  | mathml
  /-- None: the element was not read but made, as a copy or under a new name. -/
  | unknown
deriving DecidableEq, Repr

/-- The name of an element. -/
structure ElementName where
  space : Namespace
  name : String
deriving DecidableEq, Repr

/-- An HTML element with one of the names. -/
def ElementName.isOneOf (n : ElementName) (names : List String) : Bool :=
  n.space = .html && names.contains n.name

/-- The vocabularies an attribute can belong to; all but a few attributes of foreign elements are
plain. -/
inductive AttributeSpace where
  | plain
  | xlink
  | xml
  | xmlns
deriving DecidableEq, Repr

/-- An attribute with its local name. -/
structure Attribute where
  space : AttributeSpace
  name : String
  value : String
deriving DecidableEq, Repr

/-- What a node holds. -/
inductive NodeData where
  | document
  | doctype (name : String)
  | element (name : ElementName) (attributes : List Attribute)
  | text (content : String)
  | comment (content : String)
deriving DecidableEq, Repr

/-- A tree of nodes without identity. -/
abbrev Markup := Tree NodeData

/-! ## Attributes -/

namespace Attributes

/-- The value of the first attribute with a local name. -/
def find? (name : String) (as : List Attribute) : Option String :=
  (as.find? fun a => a.name = name).map Attribute.value

/-- The attributes with one of them set: the value of the first attribute with the local name, or a
new plain attribute at the end. -/
def set (name value : String) : List Attribute → List Attribute
  | [] => [⟨.plain, name, value⟩]
  | a :: rest => if a.name = name then { a with value } :: rest else a :: set name value rest

/-- The attributes without those of a local name. -/
def erase (name : String) (as : List Attribute) : List Attribute :=
  as.filter fun a => a.name != name

/-- The attributes without those of a local name, if there is a plain one among these. -/
def strip (name : String) (as : List Attribute) : List Attribute :=
  if as.any fun a => a.space = .plain && a.name = name then erase name as else as

/-- Plain copies of the attributes by local name, each name once. -/
def plain (as : List Attribute) : List Attribute :=
  as.foldl (fun copy a => set a.name a.value copy) []

/-- An attribute that was set is found. -/
theorem find?_set_self (name value : String) (as : List Attribute) :
    find? name (set name value as) = some value := by
  induction as with
  | nil => simp [set, find?]
  | cons a rest ih =>
    by_cases h : a.name = name
    · simp [set, find?, h]
    · simp only [find?] at ih ⊢
      simp [set, h, ih]

/-- Setting one attribute leaves the others alone. -/
theorem find?_set_of_ne {name other : String} (h : other ≠ name) (value : String)
    (as : List Attribute) : find? other (set name value as) = find? other as := by
  induction as with
  | nil => simp [set, find?, Ne.symm h]
  | cons a rest ih =>
    by_cases ha : a.name = name
    · simp [set, find?, ha, Ne.symm h]
    · simp only [find?] at ih ⊢
      rw [set, if_neg ha]
      by_cases ho : a.name = other
      · simp [ho]
      · simp [ho, ih]

/-- A removed attribute is gone. -/
theorem find?_erase_self (name : String) (as : List Attribute) :
    find? name (erase name as) = none := by
  simp [find?, erase]

end Attributes

namespace NodeData

/-- The node is an element. -/
def isElement : NodeData → Bool
  | .element .. => true
  | _ => false

/-- The node is a text. -/
def isText : NodeData → Bool
  | .text _ => true
  | _ => false

/-- The node is a text that holds nothing but White_Space. -/
def isBlankText : NodeData → Bool
  | .text s => isBlankString s
  | _ => false

/-- The node is a comment. -/
def isComment : NodeData → Bool
  | .comment _ => true
  | _ => false

/-- The node is the document node. -/
def isDocument : NodeData → Bool
  | .document => true
  | _ => false

/-- The name of an element as it is written, empty for other nodes. -/
def elementName : NodeData → String
  | .element n _ => n.name
  | _ => ""

/-- The tag of an element, in lower case. -/
def tag? : NodeData → Option String
  | .element n _ => some (lowered n.name)
  | _ => none

/-- The attributes of an element, none for other nodes. -/
def attributes : NodeData → List Attribute
  | .element _ as => as
  | _ => []

/-- The value of an attribute. -/
def attribute? (name : String) (d : NodeData) : Option String :=
  Attributes.find? name d.attributes

/-- An element with changed attributes; other nodes stay. -/
def mapAttributes (f : List Attribute → List Attribute) : NodeData → NodeData
  | .element n as => .element n (f as)
  | other => other

end NodeData

namespace Markup

/-- The node at the root is an element of HTML with a name. -/
def isHtml (name : String) (m : Markup) : Bool :=
  match m.label with
  | .element n _ => n.space = .html && n.name = name
  | _ => false

mutual

/-- The texts in a node and below it, in order. Comments and doctypes have none, and nothing below
a node that is neither an element nor the document counts. -/
def texts : Markup → List String
  | .node (.text s) _ => [s]
  | .node .document ts => textsList ts
  | .node (.element ..) ts => textsList ts
  | .node _ _ => []

/-- The texts of several trees in order. -/
def textsList : List Markup → List String
  | [] => []
  | t :: ts => texts t ++ textsList ts

end

/-- The text of a node. -/
def text (m : Markup) : String :=
  String.join (texts m)

end Markup

end MarkupTemplate

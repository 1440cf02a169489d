import MarkupTemplate.Html.Construction.OpenElements

/-!
# Formatting elements

Elements like `b` and `a` go on after the paragraph or cell that they were opened in has ended, and
their end tags may come in any order.

* `reopenFormatting` — open again the formatting elements that were ended around.
* `openFormatting` — add one, keeping at most three alike.
* `closeFormatting` — take an end tag of a formatting element: blocks that were opened inside of it
  keep their place, and the formatting is split around them.
* `closeOther` — take any other end tag.
-/

namespace MarkupTemplate.Html

/-- The entries up to the newest marker. -/
def reachable (entries : List Formatting) : List Formatting :=
  entries.takeWhile fun
    | .marker => false
    | .element .. => true

/-- Remove the entries up to and including the newest marker. -/
def clearToMarker : Build Unit :=
  modify fun s =>
    { s with formatting := s.formatting.drop ((reachable s.formatting).length + 1) }

/-- Put a marker. -/
def pushMarker : Build Unit :=
  modify fun s => { s with formatting := .marker :: s.formatting }

/-- The entry is for a node. -/
def Formatting.isFor (node : Nat) : Formatting → Bool
  | .marker => false
  | .element n _ => n = node

/-- Remove the entry of a node. -/
def forgetFormatting (node : Nat) : Build Unit :=
  modify fun s => { s with formatting := s.formatting.filter fun e => !e.isFor node }

/-- Replace the entry of a node by one for another node with the same tag. -/
def replaceFormatting (node other : Nat) : Build Unit :=
  modify fun s =>
    { s with
      formatting := s.formatting.map fun
        | .marker => .marker
        | .element n tag => if n = node then .element other tag else .element n tag }

/-- Tags of the same name with the same attributes in any order. -/
def Tag.alike (a b : Tag) : Bool :=
  a.name = b.name && a.attributes.length = b.attributes.length &&
    a.attributes.all fun x => b.attributes.contains x

/-- The entries without the oldest reachable one that is like a tag, if there are three. -/
def makeRoom (tag : Tag) (entries : List Formatting) : List Formatting :=
  let same := (reachable entries).filterMap fun
    | .marker => none
    | .element n t => if t.alike tag then some n else none
  match same with
  | [_, _, oldest] => entries.filter fun e => !e.isFor oldest
  | _ => entries

/-- Remember an open element as a formatting element. -/
def pushFormatting (node : Nat) (tag : Tag) : Build Unit :=
  modify fun s => { s with formatting := .element node tag :: makeRoom tag s.formatting }

/-- Add a formatting element and open it. -/
def openFormatting (tag : Tag) : Build Unit := do
  pushFormatting (← insertElement tag) tag

/-- The entries that have to be opened again, oldest first: the newest ones up to a marker or an
element that is open. -/
def ended (s : Construction) : List Formatting → List (Nat × Tag) → List (Nat × Tag)
  | [], found => found
  | .marker :: _, found => found
  | .element n tag :: rest, found =>
    if s.stack.contains n then found else ended s rest ((n, tag) :: found)

/-- Open again the formatting elements that were ended around. -/
def reopenFormatting : Build Unit := do
  let s ← get
  for (n, tag) in ended s s.formatting [] do
    let other ← insertElement tag
    replaceFormatting n other

/-- End the innermost element of a name, unless a special element lies inside of it. -/
def closeOther (name : String) : Build Unit := do
  let s ← get
  go s s.stack
where
  /-- The same for the elements that are left, innermost first. -/
  go (s : Construction) : List Nat → Build Unit
    | [] => return
    | n :: rest => do
      let found := s.nameOf n
      if found.isOneOf [name] then
        closeImplied [name]
        modify fun t => { t with stack := (t.stack.dropWhile (· != n)).drop 1 }
      else if isSpecial found then return
      else go s rest

/-! ## Splitting formatting around blocks -/

/-- Where the entry of a split formatting element goes. -/
inductive Bookmark where
  /-- In the place of the entry of this node. -/
  | replacing (node : Nat)
  /-- Right after the entry of this node. -/
  | after (node : Nat)

/-- The list of entries with a new one at a bookmark. -/
def Bookmark.insert (bookmark : Bookmark) (entry : Formatting) (entries : List Formatting) :
    List Formatting :=
  match bookmark with
  | .replacing node => entries.map fun e => if e.isFor node then entry else e
  | .after node => entries.flatMap fun e => if e.isFor node then [entry, e] else [e]

/-- The tag of the reachable formatting entry of a node. -/
def Construction.formattingTag? (s : Construction) (node : Nat) : Option Tag :=
  s.formatting.findSome? fun
    | .marker => none
    | .element n tag => if n = node then some tag else none

/-- The newest reachable formatting element of a name. -/
def Construction.formattingElement? (s : Construction) (name : String) : Option (Nat × Tag) :=
  (reachable s.formatting).findSome? fun
    | .marker => none
    | .element n tag => if tag.name = name then some (n, tag) else none

/-- Walk from a block outwards to the formatting element around it. The elements on the way that
are formatting are copied around what was gathered so far; the others are closed. Of the former,
at most three stay in the list. -/
def gather (formattingNode block : Nat) (steps : Nat) (last : Nat) (bookmark : Bookmark) :
    List Nat → Build (Nat × Bookmark)
  | [] => return (last, bookmark)
  | n :: rest => do
    if n = formattingNode then return (last, bookmark)
    let steps := steps + 1
    if 3 < steps then forgetFormatting n
    match (← get).formattingTag? n with
    | none =>
      removeOpen n
      gather formattingNode block steps last bookmark rest
    | some tag =>
      let copy ← createElement ⟨.html, tag.name⟩ tag.plainAttributes
      replaceFormatting n copy
      modify fun s => { s with stack := s.stack.map fun m => if m = n then copy else m }
      let bookmark := if last = block then .after copy else bookmark
      appendTo copy last
      gather formattingNode block steps copy bookmark rest

/-- Split a formatting element around a block inside of it. -/
def splitAround (node : Nat) (tag : Tag) (block : Nat) (inside outside : List Nat) :
    Build Unit := do
  let ancestor := outside.headD documentNode
  let around := (inside.dropWhile (· != block)).drop 1
  let (last, bookmark) ← gather node block 0 block (.replacing node) (around ++ [node])
  (← placeIn ancestor).insert last
  let copy ← createElement ⟨.html, tag.name⟩ tag.plainAttributes
  for child in (← get).childrenOf block do
    appendTo copy child
  appendTo block copy
  modify fun s =>
    let entry : Formatting := .element copy tag
    let entries := match bookmark with
      | .replacing _ => bookmark.insert entry s.formatting
      | .after _ => (bookmark.insert entry s.formatting).filter fun e => !e.isFor node
    { s with
      formatting := entries
      stack := (s.stack.filter (· != node)).flatMap fun m =>
        if m = block then [copy, m] else [m] }

/-- Take the end tag of a formatting element; at most so many splits. -/
def closeFormattingSteps (name : String) : Nat → Build Unit
  | 0 => return
  | fuel + 1 => do
    let s ← get
    match s.formattingElement? name with
    | none => closeOther name
    | some (node, tag) =>
      if !s.stack.contains node then forgetFormatting node
      else if !(← nodeInScope node) then return
      else
        let inside := s.stack.takeWhile (· != node)
        let outside := (s.stack.dropWhile (· != node)).drop 1
        match inside.reverse.find? fun n => isSpecial (s.nameOf n) with
        | none =>
          modify fun s => { s with stack := outside }
          forgetFormatting node
        | some block =>
          splitAround node tag block inside outside
          closeFormattingSteps name fuel

/-- Take the end tag of a formatting element. -/
def closeFormatting (name : String) : Build Unit := do
  let s ← get
  let n ← current
  if (s.nameOf n).isOneOf [name] && !s.formatting.any (·.isFor n) then pop
  else closeFormattingSteps name 8

end MarkupTemplate.Html

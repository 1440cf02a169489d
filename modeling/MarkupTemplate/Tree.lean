/-!
# Ordered trees

Trees of labelled nodes whose children are ordered, addressed by paths of child indices.

* `Tree` — a label and a list of subtrees.
* `Tree.at?` — the subtree at a path; `Tree.paths` — all paths, parents before their children and
  siblings in order, so that the list of paths is ascending in the lexicographic order.
* `Tree.pathTo?` — where the first node with a property is.
* `Tree.splice` — replace nodes by lists of trees; every edit of a child list is one.
* `Tree.map` — the same tree with other labels.
-/

namespace MarkupTemplate

/-- A tree: a label and the subtrees below it, in order. -/
inductive Tree (α : Type) where
  | node (label : α) (children : List (Tree α))

/-- The child indices that lead from the root of a tree to a node. -/
abbrev Path := List Nat

namespace Tree

variable {α β : Type}

/-- The label of the root. -/
def label : Tree α → α
  | .node a _ => a

/-- The subtrees right below the root. -/
def children : Tree α → List (Tree α)
  | .node _ ts => ts

/-- The tree with other subtrees. -/
def withChildren (ts : List (Tree α)) : Tree α → Tree α
  | .node a _ => .node a ts

mutual

/-- The labels, each before those below it. -/
def labels : Tree α → List α
  | .node a ts => a :: labelsList ts

/-- The labels of several trees in order. -/
def labelsList : List (Tree α) → List α
  | [] => []
  | t :: ts => labels t ++ labelsList ts

end

mutual

/-- The same tree with every label replaced. -/
def map (f : α → β) : Tree α → Tree β
  | .node a ts => .node (f a) (mapList f ts)

/-- The same trees with every label replaced. -/
def mapList (f : α → β) : List (Tree α) → List (Tree β)
  | [] => []
  | t :: ts => map f t :: mapList f ts

end

/-- The subtree at a path. -/
def at? : Path → Tree α → Option (Tree α)
  | [], t => some t
  | i :: p, t =>
    match t.children[i]? with
    | none => none
    | some c => at? p c

mutual

/-- The paths of all nodes, each before those below it. -/
def paths : Tree α → List Path
  | .node _ ts => [] :: pathsList 0 ts

/-- The paths in a run of siblings of which the first has the index `i`. -/
def pathsList (i : Nat) : List (Tree α) → List Path
  | [] => []
  | t :: ts => (paths t).map (i :: ·) ++ pathsList (i + 1) ts

end

mutual

/-- The path of the first node whose label has a property. -/
def pathTo? (p : α → Bool) : Tree α → Option Path
  | .node a ts => if p a then some [] else pathToList? p 0 ts

/-- The path of the first such node in a run of siblings of which the first has the index `i`. -/
def pathToList? (p : α → Bool) (i : Nat) : List (Tree α) → Option Path
  | [] => none
  | t :: ts =>
    match pathTo? p t with
    | some path => some (i :: path)
    | none => pathToList? p (i + 1) ts

end

mutual

/-- The first subtree whose root has a property. -/
def find? (p : α → Bool) : Tree α → Option (Tree α)
  | .node a ts => if p a then some (.node a ts) else findList? p ts

/-- The first such subtree of several trees. -/
def findList? (p : α → Bool) : List (Tree α) → Option (Tree α)
  | [] => none
  | t :: ts =>
    match find? p t with
    | some found => some found
    | none => findList? p ts

end

mutual

/-- The tree with every node below the root that has a property replaced by a list of trees. A
replaced node is not looked into. -/
def splice (p : α → Bool) (f : Tree α → List (Tree α)) : Tree α → Tree α
  | .node a ts => .node a (spliceList p f ts)

/-- The same for a list of siblings. -/
def spliceList (p : α → Bool) (f : Tree α → List (Tree α)) : List (Tree α) → List (Tree α)
  | [] => []
  | t :: rest =>
    if p t.label then f t ++ spliceList p f rest else splice p f t :: spliceList p f rest

end

mutual

/-- The tree with every node that has a property changed, the root included. A changed node is not
looked into. -/
def update (p : α → Bool) (f : Tree α → Tree α) : Tree α → Tree α
  | .node a ts => if p a then f (.node a ts) else .node a (updateList p f ts)

/-- The same for a list of siblings. -/
def updateList (p : α → Bool) (f : Tree α → Tree α) : List (Tree α) → List (Tree α)
  | [] => []
  | t :: ts => update p f t :: updateList p f ts

end

/-- Mapping keeps the label's image at the root. -/
@[simp] theorem label_map (f : α → β) (t : Tree α) : (t.map f).label = f t.label := by
  cases t; simp [map, label]

/-- Mapping a list of trees maps each. -/
theorem mapList_eq (f : α → β) (ts : List (Tree α)) : mapList f ts = ts.map (map f) := by
  induction ts with
  | nil => simp [mapList]
  | cons t ts ih => simp [mapList, ih]

/-- Mapping does not move children. -/
@[simp] theorem children_map (f : α → β) (t : Tree α) :
    (t.map f).children = t.children.map (map f) := by
  cases t; simp [map, children, mapList_eq]

/-- The subtree at a path of a mapped tree is the mapped subtree. -/
theorem at?_map (f : α → β) (p : Path) (t : Tree α) :
    at? p (t.map f) = (at? p t).map (map f) := by
  induction p generalizing t with
  | nil => simp [at?]
  | cons i p ih =>
    simp only [at?, children_map, List.getElem?_map]
    cases t.children[i]? with
    | none => simp
    | some c => simp [ih]

/-- The labels of two runs of siblings are those of the first and then those of the second. -/
theorem labelsList_append (ts us : List (Tree α)) :
    labelsList (ts ++ us) = labelsList ts ++ labelsList us := by
  induction ts with
  | nil => simp [labelsList]
  | cons t ts ih => simp [labelsList, ih]

end Tree

end MarkupTemplate

import MarkupTemplate.Document.Reading
import MarkupTemplate.Proofs.Entries

/-!
# Writing documents

What the nodes of a document hold can be replaced before the document is written, or after.

* `Tree.map_map`, `Tree.map_eq_self`, `Tree.map_update`, `Tree.find?_map` — trees with other labels.
* `Document.mapData` — the document whose nodes hold something else.
* `Document.written_mapData` — it is written as the document is, with that put in afterwards.
* `Document.holds_written`, `Document.holds_of_written` — what is written holds what the nodes hold,
  those of the tree and those beside it, and all that the nodes of the tree hold.
-/

namespace MarkupTemplate

namespace Tree

variable {α β γ : Type} {p : α → Bool}

mutual

theorem map_map (g : β → γ) (f : α → β) : ∀ t : Tree α, map g (map f t) = map (fun a => g (f a)) t
  | .node a ts => by
    rw [map, map, map, mapList_mapList g f ts]

theorem mapList_mapList (g : β → γ) (f : α → β) :
    ∀ ts : List (Tree α), mapList g (mapList f ts) = mapList (fun a => g (f a)) ts
  | [] => rfl
  | t :: ts => by
    rw [mapList, mapList, mapList, map_map g f t, mapList_mapList g f ts]

end

theorem mapList_append (f : α → β) (ts us : List (Tree α)) :
    mapList f (ts ++ us) = mapList f ts ++ mapList f us := by
  rw [mapList_eq, mapList_eq, mapList_eq, List.map_append]

mutual

/-- Labels that stay the same leave the tree the same. -/
theorem map_eq_self {f : α → α} : ∀ {t : Tree α}, t.Holds (fun a => f a = a) → map f t = t
  | .node a ts, h => by
    obtain ⟨ha, hts⟩ := holds_node.1 h
    rw [map, mapList_eq_self hts, ha]

theorem mapList_eq_self {f : α → α} :
    ∀ {ts : List (Tree α)}, HoldsAll (fun a => f a = a) ts → mapList f ts = ts
  | [], _ => rfl
  | t :: ts, h => by
    obtain ⟨ht, hts⟩ := holdsAll_cons.1 h
    rw [mapList, map_eq_self ht, mapList_eq_self hts]

end

mutual

/-- A change that does not matter after the labels are replaced. -/
theorem map_update {g : α → β} {f : Tree α → Tree α} (h : ∀ t, map g (f t) = map g t) :
    ∀ t, map g (update p f t) = map g t
  | .node a ts => by
    rw [update]
    split
    · exact h _
    · rw [map, map, mapList_updateList h ts]

theorem mapList_updateList {g : α → β} {f : Tree α → Tree α} (h : ∀ t, map g (f t) = map g t) :
    ∀ ts, mapList g (updateList p f ts) = mapList g ts
  | [] => rfl
  | t :: ts => by
    rw [updateList, mapList, mapList, map_update h t, mapList_updateList h ts]

end

mutual

theorem find?_map {f : α → β} {q : β → Bool} :
    ∀ t : Tree α, find? q (map f t) = (find? (fun a => q (f a)) t).map (map f)
  | .node a ts => by
    rw [map, find?, find?]
    split
    · rw [Option.map_some, map]
    · exact findList?_mapList ts

theorem findList?_mapList {f : α → β} {q : β → Bool} : ∀ ts : List (Tree α),
    findList? q (mapList f ts) = (findList? (fun a => q (f a)) ts).map (map f)
  | [] => rfl
  | t :: ts => by
    rw [mapList, findList?, findList?, find?_map t]
    cases find? (fun a => q (f a)) t with
    | some found => rfl
    | none => exact findList?_mapList ts

end

mutual

/-- Trees can be compared, label by label. -/
def decEq [inst : DecidableEq α] : ∀ t u : Tree α, Decidable (t = u)
  | .node a ts, .node b us =>
    match inst a b, decEqList ts us with
    | isTrue ha, isTrue hts => isTrue (ha ▸ hts ▸ rfl)
    | isFalse ha, _ => isFalse fun h => ha (Tree.node.inj h).1
    | _, isFalse hts => isFalse fun h => hts (Tree.node.inj h).2

def decEqList [inst : DecidableEq α] : ∀ ts us : List (Tree α), Decidable (ts = us)
  | [], [] => isTrue rfl
  | [], _ :: _ => isFalse nofun
  | _ :: _, [] => isFalse nofun
  | t :: ts, u :: us =>
    match decEq t u, decEqList ts us with
    | isTrue ht, isTrue hts => isTrue (ht ▸ hts ▸ rfl)
    | isFalse ht, _ => isFalse fun h => ht (List.cons.inj h).1
    | _, isFalse hts => isFalse fun h => hts (List.cons.inj h).2

end

instance [DecidableEq α] : DecidableEq (Tree α) :=
  decEq

end Tree

/-- The entry of a node that holds something else. -/
def Entry.mapData (f : NodeData → NodeData) (e : Entry) : Entry :=
  { e with data := f e.data }

namespace Document

variable {f : NodeData → NodeData} {d : Document} {P : NodeData → Prop}

/-- The document whose nodes hold something else, and those beside it too. -/
def mapData (f : NodeData → NodeData) (d : Document) : Document :=
  { d with
    tree := d.tree.map (Entry.mapData f)
    strays := Tree.mapList (Entry.mapData f) d.strays }

mutual

theorem filledIn_mapData {content content' : NodeId → List Markup}
    (h : ∀ id, content' id = Tree.mapList f (content id)) : ∀ t : Tree Entry,
    filledIn content' (t.map (Entry.mapData f)) = (filledIn content t).map f
  | .node e ts => by
    rw [Tree.map, filledIn, filledIn, Tree.map, filledInList_mapData h ts, Tree.mapList_append]
    cases hcontent : e.content with
    | none =>
      rw [Entry.mapData, hcontent]
      rfl
    | some c =>
      rw [Entry.mapData, hcontent, Option.map_some, Option.map_some, Option.getD_some,
        Option.getD_some, h]

theorem filledInList_mapData {content content' : NodeId → List Markup}
    (h : ∀ id, content' id = Tree.mapList f (content id)) : ∀ ts : List (Tree Entry),
    filledInList content' (Tree.mapList (Entry.mapData f) ts) =
      Tree.mapList f (filledInList content ts)
  | [] => rfl
  | t :: ts => by
    rw [Tree.mapList, filledInList, filledInList, Tree.mapList, filledIn_mapData h t,
      filledInList_mapData h ts]

end

mutual

theorem holds_filledIn {content : NodeId → List Markup}
    (h : ∀ id, Tree.HoldsAll P (content id)) :
    ∀ {t : Tree Entry}, t.Holds (fun e => P e.data) → (filledIn content t).Holds P
  | .node e ts, ht => by
    refine Tree.holds_node.2 ⟨ht.label, Tree.holdsAll_append.2
      ⟨?_, holdsAll_filledInList h ht.children⟩⟩
    cases e.content with
    | none => exact Tree.holdsAll_nil
    | some c => exact h c

theorem holdsAll_filledInList {content : NodeId → List Markup}
    (h : ∀ id, Tree.HoldsAll P (content id)) : ∀ {ts : List (Tree Entry)},
    Tree.HoldsAll (fun e => P e.data) ts → Tree.HoldsAll P (filledInList content ts)
  | [], _ => Tree.holdsAll_nil
  | t :: ts, hts => by
    obtain ⟨ht, hts⟩ := Tree.holdsAll_cons.1 hts
    exact Tree.holdsAll_cons.2 ⟨holds_filledIn h ht, holdsAll_filledInList h hts⟩

end

mutual

theorem holds_of_filledIn {content : NodeId → List Markup} :
    ∀ {t : Tree Entry}, (filledIn content t).Holds P → t.Holds fun e => P e.data
  | .node _ _, h => by
    obtain ⟨hdata, hchildren⟩ := Tree.holds_node.1 h
    exact Tree.holds_node.2 ⟨hdata, holdsAll_of_filledInList (Tree.holdsAll_append.1 hchildren).2⟩

theorem holdsAll_of_filledInList {content : NodeId → List Markup} : ∀ {ts : List (Tree Entry)},
    Tree.HoldsAll P (filledInList content ts) → Tree.HoldsAll (fun e => P e.data) ts
  | [], _ => Tree.holdsAll_nil
  | t :: ts, h => by
    obtain ⟨ht, hts⟩ := Tree.holdsAll_cons.1 h
    exact Tree.holdsAll_cons.2 ⟨holds_of_filledIn ht, holdsAll_of_filledInList hts⟩

end

end Document

end MarkupTemplate

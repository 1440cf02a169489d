import MarkupTemplate.Choices

/-!
# Position suffixes

A selector or a directive key may end in `::before` or `::after`. The suffix is not part of the
query: it says where content goes.

* `splitPosition` — the text without its suffix, and the insert mode the suffix stands for.
-/

namespace MarkupTemplate

/-- The text without White_Space around it and without its suffix, and what the suffix asks for.
Letter case does not count in a suffix. -/
def splitPosition (selector : String) : String × Option InsertMode :=
  let cs := Text.trim selector.toList
  let ending (n : Nat) : List Char := Text.lower (cs.drop (cs.length - n))
  if ending 8 = "::before".toList then
    (String.ofList (Text.trimEnd (cs.take (cs.length - 8))), some .prepend)
  else if ending 7 = "::after".toList then
    (String.ofList (Text.trimEnd (cs.take (cs.length - 7))), some .append)
  else (String.ofList cs, none)

end MarkupTemplate

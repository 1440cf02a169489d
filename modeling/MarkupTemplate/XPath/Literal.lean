import MarkupTemplate.Text.Pieces

/-!
# String literals of XPath

XPath literals have no escapes, so a text is written in the kind of quotes it does not hold.

* `XPath.literal` — an expression whose value is a given string.
-/

namespace MarkupTemplate.XPath

/-- An expression for a string: in double quotes, or in single quotes, or, if it holds both, put
together from the pieces between its double quotes. -/
def literal (s : String) : String :=
  let cs := s.toList
  if !cs.contains '"' then "\"" ++ s ++ "\""
  else if !cs.contains '\'' then "'" ++ s ++ "'"
  else
    let pieces := (Text.splitOn '"' cs).map fun piece => "\"" ++ String.ofList piece ++ "\""
    "concat(" ++ String.intercalate ", '\"', " pieces ++ ")"

end MarkupTemplate.XPath

import MarkupTemplate.Files
import MarkupTemplate.Import.Location

/-!
# Fetchers

* `Fetcher` — answers the question what is at a location.
* `Fetcher.files` — reads files; addresses cannot be reached.
* `Fetcher.table` — answers from a table, which may hold several answers for one source.
-/

namespace MarkupTemplate

/-- What is at a location when its source has been fetched a number of times before. -/
abbrev Fetcher := ImportLocation → Nat → Except Error String

namespace Fetcher

/-- Reads files. -/
def files (table : Files) : Fetcher := fun location _ =>
  match location.source with
  | .file path =>
    match table.read path with
    | .ok content => .ok content
    | .error fault =>
      .error ⟨.file, "Failed to read file '" ++ path ++ "': " ++ fault.message⟩
  | .address url => .error ⟨.address, "Failed to fetch '" ++ url ++ "': no connection"⟩

/-- Answers from a table by source. Every fetch takes the next answer, and the last one repeats. -/
def table (answers : Keyed (List (Option String))) : Fetcher := fun location before =>
  let key := location.key
  let known := (Keyed.find? key answers).getD []
  match known[min before (known.length - 1)]? with
  | some (some content) => .ok content
  | _ => .error ⟨.importing, "no entry for " ++ key⟩

end Fetcher

end MarkupTemplate

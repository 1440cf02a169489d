import MarkupTemplate.Keyed
import MarkupTemplate.Text.Pieces

/-!
# Files

The files that templates, settings and imports are read from.

* `Files` — contents by path, below a working directory.
* `Files.read` — the content at a path, or why it cannot be read.

A path is walked from left to right. Empty components and dots stay where they are, two dots go up.
Nothing is known of what lies outside of the working directory.
-/

namespace MarkupTemplate

/-- Contents of files by path. -/
abbrev Files := Keyed String

/-- Why a file cannot be read. -/
inductive FileFault where
  | missing
  /-- The path goes on behind a file. -/
  | notDirectory
  | isDirectory
  /-- A component of the path is too long for a name. -/
  | nameTooLong
  /-- The path holds a null character. -/
  | badName
deriving DecidableEq, Repr

/-- The text of a fault, with the number that Linux gives it. -/
def FileFault.message : FileFault → String
  | .missing => "No such file or directory (os error 2)"
  | .notDirectory => "Not a directory (os error 20)"
  | .isDirectory => "Is a directory (os error 21)"
  | .nameTooLong => "File name too long (os error 36)"
  | .badName => "file name contained an unexpected NUL byte"

namespace Files

/-- The components of a path that name something. -/
def components (path : String) : List String :=
  ((Text.splitOn '/' path.toList).filter fun c => !c.isEmpty && c != ['.']).map String.ofList

/-- The content of the file with these components. -/
def content? (files : Files) (place : List String) : Option String :=
  (List.find? (fun e => components e.1 = place) files).map Prod.snd

/-- There is a file somewhere below a place. -/
def isDirectory (files : Files) (place : List String) : Bool :=
  place.isEmpty || List.any files fun e =>
    place.length < (components e.1).length && place.isPrefixOf (components e.1)

/-- The place that a path leads to from another one. -/
def walk (files : Files) (place : List String) : List (List Char) → Except FileFault (List String)
  | [] => .ok place
  | c :: rest =>
    if (files.content? place).isSome then .error .notDirectory
    else if c.isEmpty || c = ['.'] then walk files place rest
    else if c = ['.', '.'] then
      if place.isEmpty then .error .missing else walk files place.dropLast rest
    else
      let name := String.ofList c
      if 255 < name.utf8ByteSize then .error .nameTooLong
      else
        let next := place ++ [name]
        if (files.content? next).isSome || files.isDirectory next then walk files next rest
        else .error .missing

/-- A path that does not start at the working directory, but at the root of all directories, and
leads away from there. -/
def leadsAway (path : String) : Bool :=
  path.toList.head? = some '/' && !(components path).isEmpty

/-- The content at a path. -/
def read (files : Files) (path : String) : Except FileFault String :=
  if path.toList.contains '\x00' then .error .badName
  else if 4096 ≤ path.utf8ByteSize then .error .nameTooLong
  else if path.isEmpty || leadsAway path then .error .missing
  else
    match files.walk [] (Text.splitOn '/' path.toList) with
    | .error fault => .error fault
    | .ok place =>
      match files.content? place with
      | some content => .ok content
      | none => .error .isDirectory

end Files

end MarkupTemplate

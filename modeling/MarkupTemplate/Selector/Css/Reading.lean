import MarkupTemplate.Number.Word
import MarkupTemplate.Selector.Css
import MarkupTemplate.Selector.Nesting

/-!
# Reading CSS selectors

* `branchParts` — the compounds of a branch as text, with the combinators in front of them.
* `readNth` — the argument of a position.
* `readCompound` — a compound.
* `readBranches` — a selector list.

Every function takes the text of the whole selector list, `source`, for its error messages. Errors
are found from left to right.
-/

namespace MarkupTemplate.Css

/-- A fault in a selector. -/
def fault (detail : String) : Error :=
  ⟨.selector, detail⟩

/-! ## Branches -/

/-- What of a branch has been read: the parts in reverse, the letters of the current part in
reverse, the combinator in front of it, and the nesting. -/
structure BranchScan where
  parts : List (Combinator × List Char)
  current : List Char
  pending : Option Combinator
  nesting : Nesting
deriving Repr

namespace BranchScan

/-- Nothing is read. -/
def start : BranchScan :=
  ⟨[], [], none, .top⟩

/-- The scan after the end of a part, if there was one. -/
def flush (s : BranchScan) : BranchScan :=
  if s.current.isEmpty then s
  else ⟨(s.pending.getD .descendant, s.current.reverse) :: s.parts, [], none, s.nesting⟩

/-- The combinator that a character stands for. -/
def combinator? (c : Char) : Option Combinator :=
  if c = '>' then some .child
  else if c = '+' then some .adjacent
  else if c = '~' then some .sibling
  else none

/-- The scan after one more character. -/
def step (source : String) (s : BranchScan) (c : Char) : Except Error BranchScan :=
  let inner : BranchScan :=
    { s with current := c :: s.current, nesting := s.nesting.next false c }
  if !s.nesting.isTop then .ok inner
  else if Text.isBlank c then .ok s.flush
  else
    match combinator? c with
    | none => .ok inner
    | some combinator =>
      if s.flush.pending.isSome then
        .error (fault ("Consecutive combinators in selector '" ++ source ++ "'"))
      else .ok { s.flush with pending := some combinator }

/-- The parts of a scan at the end of its branch. -/
def finish (source : String) (s : BranchScan) : Except Error (List (Combinator × List Char)) :=
  let s := s.flush
  if !s.nesting.isTop then
    .error (fault ("Unbalanced brackets in selector '" ++ source ++ "'"))
  else if s.pending.isSome then
    .error (fault ("Dangling combinator in selector '" ++ source ++ "'"))
  else if s.parts.isEmpty then .error (fault ("Empty selector in '" ++ source ++ "'"))
  else .ok s.parts.reverse

end BranchScan

/-- The compounds of a branch as text, with the combinators in front of them. -/
def branchParts (source : String) (branch : List Char) :
    Except Error (List (Combinator × List Char)) := do
  let scan ← branch.foldlM (BranchScan.step source) .start
  scan.finish source

/-! ## Conditions -/

/-- A character of a name. -/
def isNameChar (c : Char) : Bool :=
  Text.isAlphanumeric c || c = '-' || c = '_'

/-- A character that ends the name of a class or an id. -/
def endsName (c : Char) : Bool :=
  c = '.' || c = '#' || c = '[' || c = ':'

/-- The positions that an argument in lower case and without blanks asks for. -/
def nth? (argument : List Char) : Option Nth :=
  if argument = "odd".toList then some (.formula 2 1)
  else if argument = "even".toList then some (.formula 2 0)
  else
    match Text.cutAt? ['n'] argument with
    | none => (Number.readSigned? argument).map fun offset => .formula 0 offset
    | some (before, after) => do
      let step ←
        if before.isEmpty || before = ['+'] then some 1
        else if before = ['-'] then some (-1)
        else Number.readSigned? before
      let offset ←
        if after.isEmpty then some 0
        else Number.readSigned? (after.dropWhile fun c => c = '+')
      return .formula step offset

/-- The positions that an argument asks for. -/
def readNth (source : String) (argument : List Char) : Except Error Nth :=
  match nth? (Text.lower (argument.filter fun c => !Text.isBlank c)) with
  | some nth => .ok nth
  | none =>
    .error (fault ("Bad nth argument '" ++ String.ofList argument ++ "' in selector '" ++ source ++
      "'"))

/-- The value of an attribute condition without its quotes. A trailing case flag is dropped. -/
def unquoted (value : List Char) : List Char :=
  let flagged := match value.reverse with
    | c :: ' ' :: _ => c = 'i' || c = 'I'
    | _ => false
  let value := if flagged then Text.trimEnd (value.take (value.length - 2)) else value
  match value with
  | q :: c :: rest =>
    if Nesting.isQuote q && (c :: rest).getLast? = some q then (c :: rest).dropLast else value
  | _ => value

/-- The comparison that the character before an equals sign stands for. -/
def comparison? (c : Char) : Option Comparison :=
  if c = '^' then some .beginning
  else if c = '$' then some .ending
  else if c = '*' then some .part
  else if c = '|' then some .dashed
  else if c = '~' then some .word
  else none

/-- The name of an attribute without the signs in front of it. -/
def withoutSigns (cs : List Char) : List Char :=
  cs.dropWhile fun c => c = '@'

/-- The condition between brackets. -/
def readAttribute (source : String) (body : List Char) : Except Error Simple :=
  let body := Text.trim body
  match Text.cutAt? ['='] body with
  | none =>
    let name := Text.lower (Text.trim (withoutSigns body))
    if name.isEmpty || !name.all fun c => isNameChar c || c = ':' then
      .error (fault ("Bad attribute name in selector '" ++ source ++ "'"))
    else .ok (.present (String.ofList name))
  | some (before, after) =>
    let comparison := before.getLast?.bind comparison?
    let before := if comparison.isSome then before.dropLast else before
    let name := Text.lower (withoutSigns (Text.trim before))
    if name.isEmpty then
      .error (fault ("Missing attribute name in selector '" ++ source ++ "'"))
    else
      .ok (.attribute (String.ofList name) (comparison.getD .equal)
        (String.ofList (unquoted (Text.trim after))))

/-- The compounds of a negation, whose combinators do not count. -/
def readNegation (source : String) (compound : List Char → Except Error Compound)
    (argument : List Char) : Except Error (List Compound) :=
  (splitTop ',' argument).mapM fun branch => do
    match ← branchParts source (Text.trim branch) with
    | [(_, part)] => compound part
    | _ => throw (fault (":not() only accepts simple selectors in '" ++ source ++ "'"))

/-- The conditions that a pseudo-class stands for. -/
def readPseudo (source : String) (compound : List Char → Except Error Compound) (name : String)
    (argument : Option (List Char)) : Except Error (List Simple) :=
  let needed : Except Error (List Char) :=
    match argument with
    | some argument => .ok argument
    | none => .error (fault (":" ++ name ++ " needs an argument in selector '" ++ source ++ "'"))
  if name = "first-child" then .ok [.childPosition .first]
  else if name = "last-child" then .ok [.childPosition .last]
  else if name = "only-child" then .ok [.childPosition .first, .childPosition .last]
  else if name = "nth-child" then do
    return [.childPosition (← readNth source (← needed))]
  else if name = "first-of-type" then .ok [.typePosition .first]
  else if name = "last-of-type" then .ok [.typePosition .last]
  else if name = "only-of-type" then .ok [.typePosition .first, .typePosition .last]
  else if name = "nth-of-type" then do
    return [.typePosition (← readNth source (← needed))]
  else if name = "not" then do
    return [.negation (← readNegation source compound (← needed))]
  else if name = "empty" then .ok [.empty]
  else
    .error (fault ("Unsupported pseudo-class ':" ++ name ++ "' in selector '" ++ source ++ "'"))

/-- The condition that a compound goes on with, which may count as several, and what follows it. -/
def readSimple (source : String) (compound : List Char → Except Error Compound) (c : Char)
    (cs : List Char) : Except Error (List Simple × List Char) :=
  if c = '#' || c = '.' then
    let name := String.ofList (Text.lower (cs.takeWhile fun d => !endsName d))
    let rest := cs.dropWhile fun d => !endsName d
    if name.isEmpty then
      .error (fault ("Missing name after '" ++ c.toString ++ "' in selector '" ++ source ++ "'"))
    else .ok ([if c = '#' then .id name else .cls name], rest)
  else if c = '[' then
    match group? '[' ']' cs with
    | none => .error (fault ("Unclosed attribute block in selector '" ++ source ++ "'"))
    | some (body, rest) => do
      return ([← readAttribute source body], rest)
  else if c = ':' then
    if cs.head? = some ':' then
      .error (fault ("Pseudo-elements are only allowed as a trailing ::before/::after in '" ++
        source ++ "'"))
    else
      let name := String.ofList (Text.lower (cs.takeWhile isNameChar))
      let rest := cs.dropWhile isNameChar
      if rest.head? = some '(' then
        match group? '(' ')' (rest.drop 1) with
        | none => .error (fault ("Unclosed pseudo-class argument in '" ++ source ++ "'"))
        | some (argument, rest) => do
          return (← readPseudo source compound name (some argument), rest)
      else do
        return (← readPseudo source compound name none, rest)
  else
    .error (fault ("Unexpected '" ++ c.toString ++ "' in selector '" ++ source ++ "'"))

/-- The conditions of a compound. Each takes at least one character, so the length bounds them. -/
def readConditions (source : String) (compound : List Char → Except Error Compound) :
    Nat → List Char → Except Error (List Simple)
  | _, [] => .ok []
  | 0, _ => .ok []
  | fuel + 1, c :: cs => do
    let (conditions, rest) ← readSimple source compound c cs
    return conditions ++ (← readConditions source compound fuel rest)

/-- A compound in which negations nest at most `depth` deep. -/
def readCompoundWithin (source : String) : Nat → List Char → Except Error Compound
  | 0, _ => .ok (.mk "*" [])
  | depth + 1, cs => do
    let star := cs.head? = some '*'
    let name := if star then [] else cs.takeWhile isNameChar
    let rest := if star then cs.drop 1 else cs.dropWhile isNameChar
    let type := if name.isEmpty then "*" else String.ofList (Text.lower name)
    let conditions ←
      readConditions source (readCompoundWithin source depth) rest.length rest
    return .mk type conditions

/-- A compound. What a negation holds is shorter than the compound it is part of, so the length
bounds the nesting. -/
def readCompound (source : String) (cs : List Char) : Except Error Compound :=
  readCompoundWithin source (cs.length + 1) cs

/-- One branch of a selector list. -/
def readBranch (source : String) (branch : List Char) : Except Error Branch := do
  (← branchParts source branch).mapM fun (combinator, part) => do
    return (combinator, ← readCompound source part)

/-- A selector list, one branch for each of its members. -/
def readBranches (source : String) : Except Error (List Branch) :=
  (splitTop ',' source.toList).mapM fun branch => readBranch source (Text.trim branch)

end MarkupTemplate.Css

import MarkupTemplate.Proofs.Axes
import MarkupTemplate.Proofs.Tokens
import MarkupTemplate.Selector.Css.Reading

/-!
# Selectors as they are written

The plain part of the CSS grammar: types, ids, classes, attributes, emptiness and negation, with the
four combinators. A tree stands for each way to write such a selector.

* `Condition`, `Alternatives`, `Pattern` — compounds; `Chain`, `SelectorList` — what is built of
  them.
* `Pattern.text`, `Chain.text`, `SelectorList.text` — the text.
* `Pattern.fits`, `Chain.selects`, `SelectorList.selects` — the elements that a selector matches.
* `Pattern.compound`, `Chain.branch`, `SelectorList.branches` — what the text is read as.
-/

namespace MarkupTemplate.Css

open XPath

/-! ## Words -/

/-- Characters of names, at least one. -/
structure Word where
  text : List Char
  ne_nil : text ≠ []
  isNameChar : ∀ c ∈ text, isNameChar c = true

/-- A name that starts with a letter or an underscore. -/
structure Name where
  text : List Char
  isSimpleName : isSimpleName text = true

/-- What can stand between double quotes. -/
structure Quotable where
  text : List Char
  no_quote : '"' ∉ text

/-- White_Space, perhaps none. -/
structure Gap where
  text : List Char
  isBlank : ∀ c ∈ text, Text.isBlank c = true

/-- No White_Space. -/
def Gap.none : Gap :=
  ⟨[], by simp⟩

/-- A single space. -/
def Gap.space : Gap :=
  ⟨[' '], List.all_eq_true.1 (by decide)⟩

/-- A type name or the star. -/
inductive TypeName where
  | star
  | name (name : Name)

/-! ## Compounds -/

mutual

/-- A condition of a compound. -/
inductive Condition where
  | id (name : Word)
  | cls (name : Word)
  | present (name : Name)
  | equal (name : Name) (value : Quotable)
  | empty
  | negation (alternatives : Alternatives)

/-- The compounds of a negation. -/
inductive Alternatives where
  | last (before : Gap) (pattern : Pattern) (after : Gap)
  | more (before : Gap) (pattern : Pattern) (after : Gap) (rest : Alternatives)

/-- A compound: a type or a condition, or one condition more than another compound. -/
inductive Pattern where
  | type (type : TypeName)
  | first (condition : Condition)
  | also (pattern : Pattern) (condition : Condition)

end

/-- What holds of the last compound, and of the others if it holds of those behind them, holds of
all compounds of a negation. -/
@[induction_eliminator]
theorem Alternatives.induction {P : Alternatives → Prop}
    (last : ∀ before pattern after, P (.last before pattern after))
    (more : ∀ before pattern after rest, P rest → P (.more before pattern after rest)) :
    ∀ alternatives, P alternatives
  | .last before pattern after => last before pattern after
  | .more before pattern after rest =>
    more before pattern after rest (Alternatives.induction last more rest)

/-! ## Chains -/

/-- What stands between two compounds. -/
inductive Link where
  | descendant (c : Char) (isBlank : Text.isBlank c = true) (gap : Gap)
  | child (before after : Gap)
  | adjacent (before after : Gap)
  | sibling (before after : Gap)

/-- Compounds with combinators between them. -/
inductive Chain where
  | single (pattern : Pattern)
  | link (chain : Chain) (link : Link) (pattern : Pattern)

/-- Chains with commas between them. -/
inductive SelectorList where
  | last (chain : Chain)
  | more (chain : Chain) (before after : Gap) (rest : SelectorList)

/-! ## Text -/

/-- The text of a type. -/
def TypeName.text : TypeName → List Char
  | .star => ['*']
  | .name n => n.text

mutual

/-- The text of a condition. -/
def Condition.text : Condition → List Char
  | .id name => '#' :: name.text
  | .cls name => '.' :: name.text
  | .present name => '[' :: (name.text ++ [']'])
  | .equal name value => '[' :: (name.text ++ '=' :: '"' :: (value.text ++ ['"', ']']))
  | .empty => ":empty".toList
  | .negation alternatives => ":not(".toList ++ (alternatives.text ++ [')'])

/-- The text of the compounds of a negation. -/
def Alternatives.text : Alternatives → List Char
  | .last before pattern after => before.text ++ (pattern.text ++ after.text)
  | .more before pattern after rest =>
    before.text ++ (pattern.text ++ after.text) ++ ',' :: rest.text

/-- The text of a compound. -/
def Pattern.text : Pattern → List Char
  | .type type => type.text
  | .first condition => condition.text
  | .also pattern condition => pattern.text ++ condition.text

end

/-- The text of what stands between two compounds. -/
def Link.text : Link → List Char
  | .descendant c _ gap => c :: gap.text
  | .child before after => before.text ++ '>' :: after.text
  | .adjacent before after => before.text ++ '+' :: after.text
  | .sibling before after => before.text ++ '~' :: after.text

/-- The text of a chain. -/
def Chain.text : Chain → List Char
  | .single pattern => pattern.text
  | .link chain l pattern => chain.text ++ l.text ++ pattern.text

/-- The text of a selector list. -/
def SelectorList.text : SelectorList → List Char
  | .last chain => chain.text
  | .more chain before after rest => chain.text ++ before.text ++ ',' :: (after.text ++ rest.text)

/-! ## Matching -/

/-- There is an element at a place, below the root. -/
def isElement (s : Scope) (p : Place) : Bool :=
  !p.path.isEmpty && ((s.data? p).map NodeData.isElement).getD false

/-- There is a text at a place. -/
def isText (s : Scope) (p : Place) : Bool :=
  ((s.data? p).map NodeData.isText).getD false

/-- The attributes of a node with a name. The case of ASCII letters does not count in names. -/
def attributesNamed (s : Scope) (p : Place) (name : List Char) : List Attribute :=
  (s.attributes p).filter fun a => Text.sameLetters a.name.toList name

/-- The words of the first class attribute of a node. -/
def classWords (s : Scope) (p : Place) : List (List Char) :=
  match (attributesNamed s p "class".toList).head? with
  | some a => Text.words a.value.toList
  | none => []

/-- Whether the type of a node is the one that is asked for. -/
def TypeName.fits (s : Scope) (p : Place) : TypeName → Bool
  | .star => true
  | .name n => Text.sameLetters (s.name (.tree p)).toList n.text

mutual

/-- Whether a condition holds of a node. The names of ids and classes are taken in lower case. -/
def Condition.fits (s : Scope) (p : Place) : Condition → Bool
  | .id name =>
    (attributesNamed s p "id".toList).any fun a => a.value.toList = Text.lower name.text
  | .cls name => (classWords s p).contains (Text.lower name.text)
  | .present name => !(attributesNamed s p name.text).isEmpty
  | .equal name value => (attributesNamed s p name.text).any fun a => a.value.toList = value.text
  | .empty => (s.children p).all fun q => !isElement s q && !isText s q
  | .negation alternatives => !alternatives.fits s p

/-- Whether one of the compounds of a negation fits a node. -/
def Alternatives.fits (s : Scope) (p : Place) : Alternatives → Bool
  | .last _ pattern _ => pattern.fits s p
  | .more _ pattern _ rest => pattern.fits s p || rest.fits s p

/-- Whether a compound fits a node. It has to be an element. -/
def Pattern.fits (s : Scope) (p : Place) : Pattern → Bool
  | .type type => isElement s p && type.fits s p
  | .first condition => isElement s p && condition.fits s p
  | .also pattern condition => pattern.fits s p && condition.fits s p

end

/-- The nodes from which a combinator leads to a node. -/
def related (s : Scope) (combinator : Combinator) (p : Place) : List Place :=
  match combinator with
  | .descendant => p.ancestors
  | .child => p.parent?.toList
  | .adjacent => (p.earlierSiblings.filter (isElement s)).take 1
  | .sibling => p.earlierSiblings

/-- The combinator that a text between two compounds stands for. -/
def Link.combinator : Link → Combinator
  | .descendant .. => .descendant
  | .child .. => .child
  | .adjacent .. => .adjacent
  | .sibling .. => .sibling

/-- Whether a chain matches a node: the last compound fits it, and the chain before that matches a
node from which the last combinator leads to it. -/
def Chain.selects (s : Scope) : Chain → Place → Bool
  | .single pattern, p => pattern.fits s p
  | .link chain l pattern, p =>
    pattern.fits s p && (related s l.combinator p).any (chain.selects s)

/-- Whether one of the chains of a selector list matches a node. -/
def SelectorList.selects (s : Scope) : SelectorList → Place → Bool
  | .last chain, p => chain.selects s p
  | .more chain _ _ rest, p => chain.selects s p || rest.selects s p

/-! ## What is read -/

/-- The type that a type name is read as. -/
def TypeName.type : TypeName → String
  | .star => "*"
  | .name n => String.ofList (Text.lower n.text)

mutual

/-- The condition that a condition is read as. -/
def Condition.simple : Condition → Simple
  | .id name => .id (String.ofList (Text.lower name.text))
  | .cls name => .cls (String.ofList (Text.lower name.text))
  | .present name => .present (String.ofList (Text.lower name.text))
  | .equal name value =>
    .attribute (String.ofList (Text.lower name.text)) .equal (String.ofList value.text)
  | .empty => .empty
  | .negation alternatives => .negation alternatives.compounds

/-- The compounds that those of a negation are read as. -/
def Alternatives.compounds : Alternatives → List Compound
  | .last _ pattern _ => [pattern.compound]
  | .more _ pattern _ rest => pattern.compound :: rest.compounds

/-- The compound that a compound is read as. -/
def Pattern.compound : Pattern → Compound
  | .type type => .mk type.type []
  | .first condition => .mk "*" [condition.simple]
  | .also pattern condition =>
    .mk pattern.compound.type (pattern.compound.conditions ++ [condition.simple])

end

/-- The branch that a chain is read as. -/
def Chain.branch : Chain → Branch
  | .single pattern => [(.descendant, pattern.compound)]
  | .link chain l pattern => chain.branch ++ [(l.combinator, pattern.compound)]

/-- The branches that a selector list is read as. -/
def SelectorList.branches : SelectorList → List Branch
  | .last chain => [chain.branch]
  | .more chain _ _ rest => chain.branch :: rest.branches

end MarkupTemplate.Css

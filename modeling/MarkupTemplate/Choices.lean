import MarkupTemplate.Fault

/-!
# Choices

The small closed choices that settings, parameters and data make by name.

* `Grammar` — how a selector is written.
* `InsertMode` — where content goes.
* `ContentType` — what inserted text is.
* `EmptyPolicy` — what inserting nothing does.
* `CacheControl` — how an import uses the cache.

Each has a `name` and a `read`, which takes names in any case with blanks around them.
-/

namespace MarkupTemplate

/-- How a selector is written when it does not say so itself. -/
inductive Grammar where
  | css
  | xpath
deriving DecidableEq, Repr, Inhabited

/-- Where content or an attribute value goes, relative to what is there. -/
inductive InsertMode where
  | replace
  | prepend
  | append
deriving DecidableEq, Repr, Inhabited

/-- What an inserted text is. -/
inductive ContentType where
  /-- Markup, read as a fragment. -/
  | markup
  /-- Text, escaped when it is written. -/
  | text
  /-- Character data; in HTML the same as text. -/
  | cdata
deriving DecidableEq, Repr

/-- What inserting nothing does to a node. -/
inductive EmptyPolicy where
  | doNothing
  | clear
  | setFlag
  | clearAndSetFlag
  | noRender
deriving DecidableEq, Repr, Inhabited

/-- How an import uses the cache. -/
inductive CacheControl where
  /-- Take the cached text if there is one; cache what is fetched. -/
  | standard
  /-- Always fetch, then cache. -/
  | noCache
  /-- Always fetch, never cache. -/
  | noStore
  /-- Drop what is cached, fetch, then cache. -/
  | mustRevalidate
deriving DecidableEq, Repr, Inhabited

/-- The name a choice is read by: lower case, no blanks around it. -/
def choiceKey (s : String) : String :=
  lowered (trimmed s)

/-- A choice by an unknown name is a directive error. -/
def unknownChoice (what key : String) : Error :=
  ⟨.directive, "Unknown " ++ what ++ " '" ++ key ++ "'"⟩

namespace Grammar

/-- The name of a grammar. -/
def name : Grammar → String
  | .css => "css"
  | .xpath => "xpath"

/-- The grammar of a name. -/
def read (s : String) : Except Error Grammar :=
  let key := choiceKey s
  if key = "css" then .ok .css
  else if key = "xpath" then .ok .xpath
  else .error (unknownChoice "selector grammar" key)

end Grammar

namespace InsertMode

/-- The name of an insert mode. -/
def name : InsertMode → String
  | .replace => "replace"
  | .prepend => "prepend"
  | .append => "append"

end InsertMode

namespace ContentType

/-- The name of a content type. -/
def name : ContentType → String
  | .markup => "markup"
  | .text => "text"
  | .cdata => "cdata"

/-- The content type of a name. Markup is also called HTML. -/
def read (s : String) : Except Error ContentType :=
  let key := choiceKey s
  if key = "markup" || key = "html" then .ok .markup
  else if key = "text" then .ok .text
  else if key = "cdata" then .ok .cdata
  else .error (unknownChoice "content type" key)

end ContentType

namespace EmptyPolicy

/-- All policies. -/
def all : List EmptyPolicy :=
  [.doNothing, .clear, .setFlag, .clearAndSetFlag, .noRender]

/-- The name of a policy. -/
def name : EmptyPolicy → String
  | .doNothing => "do_nothing"
  | .clear => "clear"
  | .setFlag => "set_flag"
  | .clearAndSetFlag => "clear_and_set_flag"
  | .noRender => "no_render"

/-- The policy of a name. -/
def read (s : String) : Except Error EmptyPolicy :=
  let key := choiceKey s
  match all.find? fun p => p.name = key with
  | some p => .ok p
  | none => .error (unknownChoice "on_content_empty policy" key)

end EmptyPolicy

namespace CacheControl

/-- All cache controls. -/
def all : List CacheControl :=
  [.standard, .noCache, .noStore, .mustRevalidate]

/-- The name of a cache control. -/
def name : CacheControl → String
  | .standard => "default"
  | .noCache => "no_cache"
  | .noStore => "no_store"
  | .mustRevalidate => "must_revalidate"

/-- The cache control of a name, in which dashes count as underscores. Nothing is the default. -/
def read (s : String) : Except Error CacheControl :=
  let key := (choiceKey s).map fun c => if c = '-' then '_' else c
  if key.isEmpty then .ok .standard
  else
    match all.find? fun c => c.name = key with
    | some c => .ok c
    | none => .error (unknownChoice "cache directive" key)

end CacheControl

end MarkupTemplate

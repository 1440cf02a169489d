import MarkupTemplate.Json.Value
import MarkupTemplate.Repeat.Strategy
import MarkupTemplate.Choices

/-!
# Parameters

What a value may say about how it is rendered.

* `Params` — each parameter, if it is given.
* `Params.orElse` — parameters that win over others, one by one.
* `Params.inherited` — what nested levels take over.
* `Params.ofJson` — the parameters that an object gives.
-/

namespace MarkupTemplate

/-- The parameters that are given. -/
structure Params where
  contentType : Option ContentType
  repetition : Option RepeatStrategy
  onEmpty : Option EmptyPolicy
  cache : Option CacheControl
deriving DecidableEq, Repr

namespace Params

/-- Nothing is given. -/
def empty : Params :=
  ⟨none, none, none, none⟩

/-- The parameters of `inner`, and those of `outer` where `inner` gives none. -/
def orElse (inner outer : Params) : Params where
  contentType := inner.contentType.or outer.contentType
  repetition := inner.repetition.or outer.repetition
  onEmpty := inner.onEmpty.or outer.onEmpty
  cache := inner.cache.or outer.cache

/-- What nested levels take over: a repeat strategy stays with its level. -/
def inherited (p : Params) : Params :=
  { p with repetition := none }

/-- The parameters with one more, by its name. -/
def set (p : Params) (key text : String) : Except Error Params :=
  if key = "content_type" then do
    return { p with contentType := some (← ContentType.read text) }
  else if key = "repeat_fn" then do
    return { p with repetition := some (← RepeatStrategy.read text) }
  else if key = "on_content_empty" then do
    return { p with onEmpty := some (← EmptyPolicy.read text) }
  else if key = "cache" then do
    return { p with cache := some (← CacheControl.read text) }
  else .error ⟨.directive, "Unknown @params key '" ++ key ++ "'"⟩

/-- The parameters with one more, given by an entry of an object. -/
def addEntry (p : Params) (entry : String × Json) : Except Error Params :=
  match entry.2 with
  | .string text => p.set entry.1 text
  | other =>
    .error ⟨.directive, "@params value for '" ++ entry.1 ++ "' must be a string, got " ++
      other.write⟩

/-- The parameters that an object gives. -/
def ofJson : Json → Except Error Params
  | .object entries => entries.foldlM addEntry empty
  | _ => .error ⟨.directive, "@params must be an object"⟩

/-- Nothing wins over anything by being empty. -/
@[simp] theorem empty_orElse (p : Params) : empty.orElse p = p := by
  simp [orElse, empty]

/-- Layers can be put together in any grouping. -/
theorem orElse_assoc (a b c : Params) : (a.orElse b).orElse c = a.orElse (b.orElse c) := by
  cases a with
  | mk t r e k => cases t <;> cases r <;> cases e <;> cases k <;> simp [orElse]

end Params

end MarkupTemplate

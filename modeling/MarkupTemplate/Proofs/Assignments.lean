import MarkupTemplate.Proofs.Runs
import MarkupTemplate.Template

/-!
# Calls that fail

What is left of a template when a call that was to change it fails.

* `Action.Atomic` — work that leaves the state as it was if it fails.
* `Template.readEntry` — a selector with the content for it, if both can be used.
* `Template.runFrom_assignEntries` — entries are assigned up to the first that cannot be used.
* `Template.failing_calls` — loading, assigning and adding imports are atomic, and assigning an
  object keeps the entries before the faulty one.
-/

namespace MarkupTemplate

namespace Action

variable {σ α β : Type} {x : Action σ α} {f : α → Action σ β}

/-- Work that leaves the state as it was if it fails. -/
def Atomic (x : Action σ α) : Prop :=
  ∀ s e, (x.runFrom s).1 = .error e → (x.runFrom s).2 = s

theorem atomic_modify (change : σ → σ) : Atomic (modify change : Action σ Unit) :=
  fun _ _ h => nomatch h

/-- Work that has changed nothing yet may go on with atomic work. -/
theorem Atomic.bind (hx : Keeps id x) (hf : ∀ a, Atomic (f a)) : Atomic (x >>= f) := by
  intro s e h
  have kept : (x.runFrom s).2 = s := hx s
  rcases hrun : x.runFrom s with ⟨fault | a, s'⟩ <;> rw [hrun] at kept <;> subst kept
  · rw [runFrom_bind_error hrun]
  · rw [runFrom_bind_ok hrun] at h ⊢
    exact hf a _ e h

theorem Keeps.atomic (hx : Keeps id x) : Atomic x :=
  fun s _ _ => hx s

end Action

open MarkupTemplate.Action

namespace Template

/-! ## Atomic calls -/

theorem keeps_checkSelector (selector : String) : Keeps id (checkSelector selector) :=
  keeps_get.bind fun _ => (keeps_lift _).bind fun _ => keeps_pure _

theorem atomic_load (files : Files) (text : String) : Atomic (load files text) := by
  rw [load]
  split
  · exact atomic_modify _
  · split
    · exact (keeps_throw _).atomic
    · exact Atomic.bind (keeps_lift _) fun _ => atomic_modify _

theorem atomic_assignContent (selector : String) (content : Content) :
    Atomic (assignContent selector content) :=
  Atomic.bind (keeps_checkSelector selector) fun _ => atomic_modify _

theorem atomic_assign (selector : String) (value : Json) : Atomic (assign selector value) :=
  Atomic.bind (keeps_lift _) fun content => atomic_assignContent selector content

theorem atomic_addImport (selector location : String) (cache : CacheControl) :
    Atomic (addImport selector location cache) :=
  Atomic.bind (keeps_lift _) fun _ =>
    Atomic.bind (keeps_checkSelector selector) fun _ => atomic_modify _

/-! ## Assigning an object -/

/-- A selector with the content for it, if both can be used. -/
def readEntry (grammar : Grammar) (entry : String × Json) : Except Error (String × Content) := do
  let content ← Content.ofJson entry.2
  discard (Selector.compile grammar entry.1)
  return (entry.1, content)

/-- The template with more contents to be filled in. -/
def withContents (t : Template) (contents : List (String × Content)) : Template :=
  { t with data := contents.foldl (fun data entry => data.insert entry.1 entry.2) t.data }

theorem runFrom_checkSelector (t : Template) (selector : String) :
    (checkSelector selector).runFrom t =
      (discard (Selector.compile t.settings.grammar selector), t) := by
  rw [checkSelector, runFrom_bind_ok (runFrom_get t)]
  cases Selector.compile t.settings.grammar selector <;> rfl

/-- An entry is assigned if it can be used, and changes nothing otherwise. -/
theorem runFrom_assign (t : Template) (entry : String × Json) :
    (assign entry.1 entry.2).runFrom t =
      match readEntry t.settings.grammar entry with
      | .ok found => (.ok (), t.withContents [found])
      | .error e => (.error e, t) := by
  rw [assign, readEntry]
  cases Content.ofJson entry.2 with
  | error e => rfl
  | ok content =>
    have given : (liftM (Except.ok content : Except Error Content) : Action _ _).runFrom t =
        (.ok content, t) := rfl
    have checked := runFrom_checkSelector t entry.1
    rw [runFrom_bind_ok given, assignContent]
    cases hselector : Selector.compile t.settings.grammar entry.1 with
    | error e =>
      rw [hselector] at checked
      rw [runFrom_bind_error checked]
      rfl
    | ok s =>
      rw [hselector] at checked
      rw [runFrom_bind_ok checked]
      rfl

/-- **Entries are assigned in order**, all of them, or those before the first that cannot be used,
which gives the error. -/
theorem runFrom_assignEntries (t : Template) (entries : List (String × Json)) :
    (∃ contents, entries.mapM (readEntry t.settings.grammar) = .ok contents ∧
      (entries.forM fun e => assign e.1 e.2).runFrom t = (.ok (), t.withContents contents)) ∨
    (∃ before entry after contents e, entries = before ++ entry :: after ∧
      before.mapM (readEntry t.settings.grammar) = .ok contents ∧
      readEntry t.settings.grammar entry = .error e ∧
      (entries.forM fun e => assign e.1 e.2).runFrom t = (.error e, t.withContents contents)) := by
  induction entries generalizing t with
  | nil => exact .inl ⟨[], rfl, rfl⟩
  | cons entry entries ih =>
    have hrun := runFrom_assign t entry
    cases hentry : readEntry t.settings.grammar entry with
    | error e =>
      rw [hentry] at hrun
      exact .inr ⟨[], entry, entries, [], e, rfl, rfl, hentry, runFrom_bind_error hrun⟩
    | ok found =>
      rw [hentry] at hrun
      have hrest : ((entry :: entries).forM fun e => assign e.1 e.2).runFrom t =
          (entries.forM fun e => assign e.1 e.2).runFrom (t.withContents [found]) :=
        runFrom_bind_ok hrun
      have read {es : List (String × Json)} {contents : List (String × Content)}
          (h : es.mapM (readEntry t.settings.grammar) = .ok contents) :
          (entry :: es).mapM (readEntry t.settings.grammar) = .ok (found :: contents) := by
        rw [List.mapM_cons, hentry, h]
        rfl
      obtain ⟨contents, hread, hdone⟩ | ⟨before, bad, after, contents, e, rfl, hread, hbad, hdone⟩ :=
        ih (t.withContents [found])
      · exact .inl ⟨found :: contents, read hread, hrest.trans hdone⟩
      · exact .inr ⟨entry :: before, bad, after, found :: contents, e, rfl, read hread, hbad,
          hrest.trans hdone⟩

/-- **Calls that fail**, on any template. Loading another page, assigning a content or a JSON value
and adding an import change nothing if they fail. Assigning all values of an object is not undone:
if it fails, either there was no object and nothing has changed, or the first entry that cannot be
used gives the error, and nothing has changed but that the entries before it are assigned. -/
theorem failing_calls (t : Template) :
    (∀ files text e, ((load files text).runFrom t).1 = .error e →
      ((load files text).runFrom t).2 = t) ∧
    (∀ selector content e, ((assignContent selector content).runFrom t).1 = .error e →
      ((assignContent selector content).runFrom t).2 = t) ∧
    (∀ selector value e, ((assign selector value).runFrom t).1 = .error e →
      ((assign selector value).runFrom t).2 = t) ∧
    (∀ selector location cache e, ((addImport selector location cache).runFrom t).1 = .error e →
      ((addImport selector location cache).runFrom t).2 = t) ∧
    (∀ data e, ((assignAll data).runFrom t).1 = .error e →
      ((∀ entries, data ≠ .object entries) ∧ ((assignAll data).runFrom t).2 = t) ∨
      ∃ before entry after contents, data = .object (before ++ entry :: after) ∧
        before.mapM (readEntry t.settings.grammar) = .ok contents ∧
        readEntry t.settings.grammar entry = .error e ∧
        ((assignAll data).runFrom t).2 =
          { t with data := contents.foldl (fun data c => data.insert c.1 c.2) t.data }) := by
  refine ⟨fun files text => atomic_load files text t,
    fun selector content => atomic_assignContent selector content t,
    fun selector value => atomic_assign selector value t,
    fun selector location cache => atomic_addImport selector location cache t, ?_⟩
  intro data e h
  cases data with
  | object entries =>
    rw [assignAll] at h ⊢
    obtain ⟨contents, -, hdone⟩ | ⟨before, bad, after, contents, fault, rfl, hread, hbad, hdone⟩ :=
      runFrom_assignEntries t entries
    · rw [hdone] at h
      cases h
    · rw [hdone] at h ⊢
      cases h
      exact .inr ⟨before, bad, after, contents, rfl, hread, hbad, rfl⟩
  | null | bool | number | string | array => exact .inl ⟨nofun, rfl⟩

/-- **An object may be assigned in part.** The empty selector of the second entry is an error, and
the first entry stays. -/
theorem assignAll_in_part :
    (empty .standard (Fetcher.files [])).data = [] ∧
      ((assignAll (.object [("p", .string "x"), ("", .string "y")])).runFrom
        (empty .standard (Fetcher.files []))).1 = .error ⟨.selector, "Empty selector ''"⟩ ∧
      ((assignAll (.object [("p", .string "x"), ("", .string "y")])).runFrom
        (empty .standard (Fetcher.files []))).2.data = [("p", .text "x")] := by
  exact ⟨rfl, rfl, rfl⟩

end Template

end MarkupTemplate

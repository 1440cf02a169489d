import MarkupTemplate.Proofs.Compositions
import MarkupTemplate.Proofs.Strictness

/-!
# Retries

What a rendering does depends on the document, the data and the answers to fetches, and on nothing
that was noted down before.

* `Action.Respects` — work that ends alike from states that are alike.
* `Importer.Alike` — importers that give the same answers from now on.
* `Rendering.Alike`, `Template.Alike` — the same but for the log of queries, and for how their
  importers came to give the same answers.
* `Rendering.respects_complete`, `Template.respects_render`, `Template.respects_renderedPart` —
  rendering such pages ends alike.
* `Importer.alike_of_answers` — importers are alike whose fetchers always give the same answer for a
  source, whatever they have cached.
-/

namespace MarkupTemplate

/-- Taking out one key does not change what another one has. -/
theorem Keyed.find?_erase {β : Type} (key other : String) (m : Keyed β) :
    find? key (erase other m) = if key = other then none else find? key m := by
  induction m with
  | nil => exact (ite_self _).symm
  | cons e rest ih =>
    obtain ⟨k, v⟩ := e
    rw [erase] at ih ⊢
    by_cases hk : k = other
    · subst hk
      rw [List.filter_cons_of_neg (by simp), ih]
      by_cases hkey : key = k
      · rw [if_pos hkey, if_pos hkey]
      · rw [if_neg hkey, if_neg hkey, find?, if_neg (Ne.symm hkey)]
    · rw [List.filter_cons_of_pos (by simpa using hk), find?, ih, find?]
      by_cases hkey : k = key
      · subst hkey
        rw [if_pos rfl, if_pos rfl, if_neg hk]
      · rw [if_neg hkey, if_neg hkey]

/-! ## Work -/

namespace Action

variable {σ τ α β : Type} {x : Action σ α} {f : α → Action σ β} {R : σ → σ → Prop}

/-- Work that ends alike from states that are alike, and leaves states that are. -/
def Respects (R : σ → σ → Prop) (x : Action σ α) : Prop :=
  ∀ s s', R s s' → (x.runFrom s).1 = (x.runFrom s').1 ∧ R (x.runFrom s).2 (x.runFrom s').2

theorem respects_lift (x : Except Error α) : Respects R (liftM x) :=
  fun _ _ h => ⟨rfl, h⟩

theorem respects_pure (a : α) : Respects R (pure a) :=
  respects_lift (.ok a)

theorem Respects.bind (hx : Respects R x) (hf : ∀ a, Respects R (f a)) :
    Respects R (x >>= f) := by
  intro s s' h
  obtain ⟨hresult, hstate⟩ := hx s s' h
  rcases hrun : x.runFrom s with ⟨e | a, s₁⟩ <;> rcases hrun' : x.runFrom s' with ⟨e' | a', s₁'⟩ <;>
    rw [hrun, hrun'] at hresult hstate <;> cases hresult
  · rw [runFrom_bind_error hrun, runFrom_bind_error hrun']
    exact ⟨rfl, hstate⟩
  · rw [runFrom_bind_ok hrun, runFrom_bind_ok hrun']
    exact hf a s₁ s₁' hstate

theorem respects_modify {change : σ → σ} (h : ∀ s s', R s s' → R (change s) (change s')) :
    Respects R (modify change : Action σ Unit) :=
  fun s s' hs => ⟨rfl, h s s' hs⟩

/-- Work that goes on with the state it finds. -/
theorem respects_get_bind {f : σ → Action σ β}
    (h : ∀ s s', R s s' → ((f s).runFrom s).1 = ((f s').runFrom s').1 ∧
      R ((f s).runFrom s).2 ((f s').runFrom s').2) :
    Respects R (get >>= f) :=
  fun s s' hs => by
    rw [runFrom_bind_ok (runFrom_get s), runFrom_bind_ok (runFrom_get s')]
    exact h s s' hs

theorem respects_forM {f : β → Action σ Unit} (h : ∀ b, Respects R (f b)) :
    ∀ bs : List β, Respects R (bs.forM f)
  | [] => respects_pure ()
  | b :: bs => (h b).bind fun _ => respects_forM h bs

theorem respects_mapM {f : β → Action σ α} (h : ∀ b, Respects R (f b)) :
    ∀ bs : List β, Respects R (bs.mapM f)
  | [] => respects_pure []
  | b :: bs => by
    rw [List.mapM_cons]
    exact (h b).bind fun a => (respects_mapM h bs).bind fun as => respects_pure _

theorem respects_foldlM {f : α → β → Action σ α} (h : ∀ a b, Respects R (f a b)) :
    ∀ (bs : List β) (a : α), Respects R (bs.foldlM f a)
  | [], a => respects_pure a
  | b :: bs, a => by
    rw [List.foldlM_cons]
    exact (h a b).bind fun a => respects_foldlM h bs a

/-- Work on a part of a state. -/
theorem Respects.on {S : τ → τ → Prop} {part : τ → σ} {replace : τ → σ → τ} (hx : Respects R x)
    (hpart : ∀ t t', S t t' → R (part t) (part t'))
    (hreplace : ∀ t t' s s', S t t' → R s s' → S (replace t s) (replace t' s')) :
    Respects S (x.on part replace) := by
  intro t t' h
  obtain ⟨hresult, hstate⟩ := hx _ _ (hpart t t' h)
  rw [runFrom_on, runFrom_on]
  exact ⟨hresult, hreplace t t' _ _ h hstate⟩

end Action

open MarkupTemplate.Action

/-! ## Pages -/

namespace Page

/-- Pages that differ in their logs alone. -/
structure Alike (p p' : Page) : Prop where
  document : p.document = p'.document
  grammar : p.grammar = p'.grammar

variable {p p' : Page} {α : Type}

theorem respects_selectCompiled (s : Selector) (context : QueryContext) :
    Respects Alike (selectCompiled s context) := by
  refine respects_get_bind fun p p' h => ?_
  have same : nodesAt p.document (p.contextNode context) (query s context) =
      nodesAt p'.document (p'.contextNode context) (query s context) := by
    cases context with
    | document => exact congrArg (fun d => nodesAt d d.root (query s .document)) h.document
    | node id => exact congrArg (fun d => nodesAt d id (query s (.node id))) h.document
    | paths paths => exact congrArg (fun d => nodesAt d d.root (query s (.paths paths))) h.document
  rw [same]
  cases nodesAt p'.document (p'.contextNode context) (query s context) with
  | error f => exact ⟨rfl, h⟩
  | ok nodes =>
    refine ⟨?_, h.document, h.grammar⟩
    exact congrArg (fun d => Except.ok (nodes.filter (isOpen d))) h.document

/-- What a selector finds does not depend on the log. -/
theorem respects_select (selector : String) (context : QueryContext) :
    Respects Alike (select selector context) := by
  refine respects_get_bind fun p p' h => ?_
  rw [h.grammar]
  exact (respects_lift _).bind (fun s => respects_selectCompiled s context) p p' h

theorem respects_selectHtml (selector : String) : Respects Alike (selectHtml selector) := by
  refine (respects_select selector .document).bind fun ids => respects_get_bind fun p p' h => ?_
  rw [h.document]
  exact ⟨rfl, h⟩

theorem respects_fragmentHtml (selector separator : String) :
    Respects Alike (fragmentHtml selector separator) := by
  rw [fragmentHtml, map_eq_pure_bind]
  exact (respects_selectHtml selector).bind fun _ => respects_pure _

end Page

namespace WorkingList

theorem respects_makeCopy (indented : Bool) (list : WorkingList) (c : PlannedCopy) :
    Respects Page.Alike (makeCopy indented list c) := by
  refine respects_get_bind fun p p' h => ?_
  cases (list.slots[c.source]?).bind List.head? with
  | none => exact ⟨rfl, h⟩
  | some source =>
    dsimp only
    rw [h.document]
    cases p'.document.copy? source with
    | none => exact ⟨rfl, h⟩
    | some copy => exact ⟨rfl, rfl, h.grammar⟩

theorem respects_start (targets : Targets) (source : Option NodeId) (itself : Bool) :
    Respects Page.Alike (start targets source itself) := by
  cases itself with
  | true => exact respects_pure _
  | false =>
    cases targets with
    | named selectors =>
      exact (respects_mapM (fun s => Page.respects_select s _) selectors).bind fun _ =>
        respects_pure _
    | items count =>
      refine respects_get_bind fun p p' h => ?_
      rw [h.document]
      exact ⟨rfl, rfl, h.grammar⟩

/-- Nor does a working list. -/
theorem respects_populate (targets : Targets) (source : Option NodeId)
    (strategy : Option RepeatStrategy) (itself indented : Bool) :
    Respects Page.Alike (populate targets source strategy itself indented) := by
  refine (respects_start targets source itself).bind fun list => ?_
  cases strategy with
  | none => exact respects_pure _
  | some strategy => exact respects_foldlM (respects_makeCopy indented) _ list

end WorkingList

/-! ## Importers -/

namespace ImportCache

/-- Nothing is cached for a source but the answer for it. -/
def Agrees (c : ImportCache) (answer : String → Except Error String) : Prop :=
  ∀ key value, Keyed.find? key c.entries = some value → answer key = .ok value

variable {c : ImportCache} {answer : String → Except Error String}

theorem Agrees.insert (h : c.Agrees answer) {key value : String} (hanswer : answer key = .ok value) :
    (c.insert key value).Agrees answer := by
  intro other cached hfind
  rw [ImportCache.insert] at hfind
  by_cases hkey : other = key
  · subst hkey
    rw [Keyed.find?_insert_self] at hfind
    rwa [← Option.some.inj hfind]
  · rw [Keyed.find?_insert_of_ne hkey] at hfind
    exact h other cached hfind

theorem Agrees.erase (h : c.Agrees answer) (key : String) : (c.erase key).Agrees answer := by
  intro other cached hfind
  rw [ImportCache.erase, Keyed.find?_erase] at hfind
  split at hfind
  · cases hfind
  · exact h other cached hfind

end ImportCache

namespace Importer

/-- What an importer answers to requests that come one after the other. -/
def answers : Importer → List (ImportLocation × CacheControl) → List (Except Error String)
  | _, [] => []
  | i, (location, control) :: requests =>
    (i.load location control).1 :: (i.load location control).2.answers requests

/-- Importers that give the same answers from now on. -/
def Alike (i j : Importer) : Prop :=
  ∀ requests, i.answers requests = j.answers requests

variable {i j : Importer}

theorem Alike.load (h : i.Alike j) (location : ImportLocation) (control : CacheControl) :
    (i.load location control).1 = (j.load location control).1 ∧
      (i.load location control).2.Alike (j.load location control).2 := by
  have cons : ∀ requests, (i.load location control).1 ::
      (i.load location control).2.answers requests =
        (j.load location control).1 :: (j.load location control).2.answers requests :=
    fun requests => h ((location, control) :: requests)
  exact ⟨(List.cons.inj (cons [])).1, fun requests => (List.cons.inj (cons requests)).2⟩

theorem Alike.resolve (h : i.Alike j) (location : ImportLocation) (control : CacheControl)
    (grammar : Grammar) :
    (i.resolve location control grammar).1 = (j.resolve location control grammar).1 ∧
      (i.resolve location control grammar).2.Alike (j.resolve location control grammar).2 := by
  obtain ⟨hanswer, hafter⟩ := h.load location control
  exact ⟨congrArg (fun loaded => loaded.bind (markupIn grammar location)) hanswer, hafter⟩

/-- An importer that always has the same answer for a source, fetched or cached. -/
structure Answers (i : Importer) (answer : String → Except Error String) : Prop where
  fetcher : ∀ location count, i.fetched.count location.key ≤ count →
    i.fetcher location count = answer location.key
  cache : i.cache.Agrees answer

variable {answer : String → Except Error String}

theorem Answers.fetchAndStore {cache : ImportCache} (h : i.Answers answer)
    (hcache : cache.Agrees answer) (location : ImportLocation) (control : CacheControl) :
    ({ i with cache }.fetchAndStore location control).1 = answer location.key ∧
      ({ i with cache }.fetchAndStore location control).2.Answers answer := by
  have fetched : { i with cache }.fetch location = (answer location.key,
      { i with cache, fetched := i.fetched ++ [location.key] }) := by
    rw [fetch, h.fetcher location _ (Nat.le_refl _)]
  have fetcher : ∀ l count, (i.fetched ++ [location.key]).count l.key ≤ count →
      i.fetcher l count = answer l.key := by
    intro l count hcount
    rw [List.count_append] at hcount
    exact h.fetcher l count (Nat.le_trans (Nat.le_add_right _ _) hcount)
  rw [Importer.fetchAndStore, fetched]
  cases hanswer : answer location.key with
  | error e => exact ⟨rfl, fetcher, hcache⟩
  | ok value =>
    refine ⟨rfl, ?_⟩
    change Answers (Importer.store _ control location.key value) answer
    rw [store]
    split
    · exact ⟨fetcher, hcache⟩
    · exact ⟨fetcher, hcache.insert hanswer⟩

/-- Such an importer gives that answer, and goes on to do so. -/
theorem Answers.load (h : i.Answers answer) (location : ImportLocation) (control : CacheControl) :
    (i.load location control).1 = answer location.key ∧
      (i.load location control).2.Answers answer := by
  cases control with
  | noCache | noStore => exact h.fetchAndStore h.cache location _
  | mustRevalidate => exact h.fetchAndStore (h.cache.erase location.key) location _
  | standard =>
    rw [Importer.load, ImportCache.get]
    cases hfind : Keyed.find? location.key i.cache.entries with
    | some value => exact ⟨(h.cache _ _ hfind).symm, h.fetcher, h.cache⟩
    | none =>
      have missed : ImportCache.Agrees ⟨i.cache.entries, i.cache.hits, i.cache.misses + 1⟩ answer :=
        h.cache
      exact h.fetchAndStore missed location _

end Importer

/-! ## Renderings -/

namespace Rendering

/-- Renderings that differ in the logs of their pages alone, and in how their importers came to give
the same answers. -/
structure Alike (r r' : Rendering) : Prop where
  page : r.page.Alike r'.page
  importer : r.importer.Alike r'.importer
  touched : r.touched = r'.touched
  diagnostics : r.diagnostics = r'.diagnostics

variable {r r' : Rendering} {α : Type}

theorem respects_document : Respects Alike document :=
  fun _ _ h => ⟨congrArg Except.ok h.page.document, h⟩

theorem respects_edit (change : Document → Document) : Respects Alike (edit change) :=
  fun _ _ h => ⟨rfl, ⟨congrArg change h.page.document, h.page.grammar⟩, h.importer, h.touched,
    h.diagnostics⟩

theorem respects_touch (id : NodeId) : Respects Alike (touch id) :=
  fun _ _ h => ⟨rfl, h.page, h.importer, congrArg (· ++ [id]) h.touched, h.diagnostics⟩

theorem respects_onPage {x : Action Page α} (h : Respects Page.Alike x) :
    Respects Alike (onPage x) :=
  h.on (fun _ _ hr => hr.page)
    fun _ _ _ _ hr hp => ⟨hp, hr.importer, hr.touched, hr.diagnostics⟩

theorem respects_fetchMarkup (settings : Settings) (location : ImportLocation)
    (control : CacheControl) : Respects Alike (fetchMarkup settings location control) := by
  intro r r' h
  obtain ⟨hmarkup, himporter⟩ := h.importer.resolve location control settings.grammar
  rw [runFrom_fetchMarkup, runFrom_fetchMarkup]
  exact ⟨hmarkup, h.page, himporter, h.touched, h.diagnostics⟩

theorem respects_attempt {settings : Settings} {x : Action Rendering α} (selector : String)
    (directive : Option String) (fallback : α) (hx : Respects Alike x) :
    Respects Alike (attempt settings selector directive fallback x) := by
  intro r r' h
  obtain ⟨hresult, hstate⟩ := hx r r' h
  rcases hrun : x.runFrom r with ⟨e | a, r₁⟩ <;> rcases hrun' : x.runFrom r' with ⟨e' | a', r₁'⟩ <;>
    rw [hrun, hrun'] at hresult hstate <;> cases hresult
  · cases he : settings.strict || !e.isDirectiveLevel with
    | true =>
      rw [attempt_throws hrun he, attempt_throws hrun' he]
      exact ⟨rfl, hstate⟩
    | false =>
      rw [attempt_records hrun he, attempt_records hrun' he]
      exact ⟨rfl, hstate.page, hstate.importer, hstate.touched,
        congrArg (· ++ _) hstate.diagnostics⟩
  · rw [attempt_ok hrun, attempt_ok hrun']
    exact ⟨rfl, hstate⟩

theorem compositional_respects (settings : Settings) :
    Compositional settings (Respects Alike) where
  lift := respects_lift
  bind := Respects.bind
  attempt selector directive fallback _ hx := respects_attempt selector directive fallback hx
  document := respects_document
  edit := respects_edit
  touch := respects_touch
  fetchMarkup := respects_fetchMarkup settings
  populate targets source strategy itself :=
    respects_onPage (WorkingList.respects_populate targets source strategy itself _)

theorem respects_spliceImport (settings : Settings) (i : PageImport) :
    Respects Alike (spliceImport settings i) := by
  refine (respects_fetchMarkup settings i.location i.cache).bind fun markup =>
    respects_get_bind fun r r' h => ?_
  rw [h.page.grammar]
  refine ((respects_lift _).bind fun s => ?_) r r' h
  exact (respects_onPage (Page.respects_selectCompiled s .document)).bind fun targets =>
    respects_forM (fun _ => respects_edit _) targets

/-- Turning a page over replaces its document, and the touched nodes are forgotten. -/
theorem exists_turnOver (r : Rendering) :
    ∃ d, d = Document.ofHtml (r.touched.foldl settle r.page.document).html ∧
      r.turnOver = ⟨⟨d, r.page.grammar, r.page.log⟩, r.importer, [], r.diagnostics⟩ :=
  ⟨_, rfl, rfl⟩

theorem alike_turnOver (h : r.Alike r') : r.turnOver.Alike r'.turnOver := by
  obtain ⟨d, hd, hr⟩ := exists_turnOver r
  obtain ⟨d', hd', hr'⟩ := exists_turnOver r'
  have document : d = d' := by
    rw [hd, hd', h.touched, h.page.document]
  rw [hr, hr']
  exact ⟨⟨document, h.page.grammar⟩, h.importer, rfl, h.diagnostics⟩

/-- **Everything that is done with a page** ends alike for pages that are alike. -/
theorem respects_complete (settings : Settings) (imports : List PageImport) (data : DataStack) :
    Respects Alike (complete settings imports data) := by
  have again : Respects Alike (passAgain settings data) :=
    (respects_modify fun _ _ => alike_turnOver).bind fun _ =>
      ((compositional_respects settings).pass data).bind fun _ => respects_edit _
  refine (respects_forM (respects_spliceImport settings) imports).bind fun _ =>
    ((compositional_respects settings).pass data).bind fun _ => ?_
  split
  · exact again
  · exact respects_pure ()

end Rendering

/-! ## Templates -/

namespace Template

/-- Templates with the same document, to be filled with the same data in the same way, whose importers
give the same answers. -/
structure Alike (t t' : Template) : Prop where
  page : Option.Rel Page.Alike t.page t'.page
  settings : t.settings = t'.settings
  data : t.data = t'.data
  imports : t.imports = t'.imports
  importer : t.importer.Alike t'.importer
  isRendered : t.isRendered = t'.isRendered

/-- Work on the page of a template is work on the page, and changes nothing else. -/
theorem runFrom_onPage {α : Type} {t : Template} {page : Page} (hp : t.page = some page)
    (x : Action Page α) :
    (onPage x).runFrom t = ((x.runFrom page).1, { t with page := some (x.runFrom page).2 }) := by
  rw [onPage, runFrom_bind_ok (currentPage_of_page hp)]
  cases x.runFrom page with
  | mk result page => cases result <;> rfl

theorem runFrom_onPage_of_no_page {α : Type} {t : Template} (hp : t.page = none)
    (x : Action Page α) : (onPage x).runFrom t = (.error nothingLoaded, t) := by
  rw [onPage, runFrom_bind_error (currentPage_of_no_page hp)]

/-- Templates that are alike have no pages, or pages that are alike. -/
theorem Alike.pages {t t' : Template} (h : t.Alike t') :
    t.page = none ∧ t'.page = none ∨
      ∃ p p', t.page = some p ∧ t'.page = some p' ∧ p.Alike p' := by
  have hpage := h.page
  cases hp : t.page <;> cases hp' : t'.page <;> rw [hp, hp'] at hpage <;> cases hpage
  case none => exact .inl ⟨rfl, rfl⟩
  case some alike => exact .inr ⟨_, _, rfl, rfl, alike⟩

theorem respects_onPage {α : Type} {x : Action Page α} (hx : Respects Page.Alike x) :
    Respects Alike (onPage x) := by
  intro t t' h
  rcases h.pages with ⟨hp, hp'⟩ | ⟨p, p', hp, hp', alike⟩
  · rw [runFrom_onPage_of_no_page hp, runFrom_onPage_of_no_page hp']
    exact ⟨rfl, h⟩
  · obtain ⟨hresult, hpage⟩ := hx p p' alike
    rw [runFrom_onPage hp, runFrom_onPage hp']
    exact ⟨hresult, .some hpage, h.settings, h.data, h.imports, h.importer, h.isRendered⟩

theorem respects_ensureRendered : Respects Alike ensureRendered := by
  intro t t' h
  cases hr : t.isRendered with
  | true =>
    rw [ensureRendered_of_isRendered hr, ensureRendered_of_isRendered (h.isRendered ▸ hr)]
    exact ⟨rfl, h⟩
  | false =>
    have hr' : t'.isRendered = false := h.isRendered ▸ hr
    rcases h.pages with ⟨hp, hp'⟩ | ⟨p, p', hp, hp', alike⟩
    · rw [ensureRendered_of_no_page hr hp, ensureRendered_of_no_page hr' hp']
      exact ⟨rfl, h⟩
    · have started : (Rendering.start p t.importer).Alike (.start p' t'.importer) :=
        ⟨alike, h.importer, rfl, rfl⟩
      obtain ⟨hresult, hstate⟩ :=
        Rendering.respects_complete t.settings t.imports t.data _ _ started
      rw [ensureRendered_of_page hr hp, ensureRendered_of_page hr' hp', completed, completed,
        ← h.settings, ← h.imports, ← h.data, ← hresult]
      refine ⟨rfl, ?_⟩
      cases ((Rendering.complete t.settings t.imports t.data).runFrom (.start p t.importer)).1 with
      | ok u =>
        exact ⟨.some hstate.page, h.settings, h.data, h.imports, hstate.importer, rfl⟩
      | error e =>
        exact ⟨.some hstate.page, h.settings, h.data, h.imports, hstate.importer, h.isRendered⟩

/-- So are parts of them. -/
theorem respects_renderedPart (selector : String) : Respects Alike (renderedPart selector) := by
  refine respects_ensureRendered.bind fun _ => respects_get_bind fun t t' h => ?_
  rw [h.settings]
  exact respects_onPage (Page.respects_fragmentHtml selector _) t t' h

end Template

end MarkupTemplate

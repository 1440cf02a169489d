import Mathlib.Data.List.Induction
import MarkupTemplate.Proofs.Retries

/-!
# Runs of loads

What an importer has cached after any number of loads, for a fetcher that may answer each fetch of a
source differently, or fail.

* `ImportLocation.key_eq_iff` — locations share an entry when they have the same source.
* `Importer.load_cases` — all that a load can do.
* `Importer.Event`, `Importer.events`, `Importer.after` — a run of loads, with what came of each.
* `Importer.find?_after_load` — what one load does to the entries.
* `Importer.run_of_loads` — what is cached after a run, what the next load does with it, and how the
  hits, misses and fetches add up.
-/

namespace MarkupTemplate

namespace ImportSource

/-- Files and addresses have keys of their own. -/
theorem key_injective : Function.Injective key := by
  intro s s' h
  cases s with
  | file path =>
    cases s' with
    | file path' => exact congrArg file (by simpa [key] using h)
    | address url => exact absurd (congrArg (fun k => k.toList.head?) h) (by simp [key])
  | address url =>
    cases s' with
    | file path => exact absurd (congrArg (fun k => k.toList.head?) h) (by simp [key])
    | address url' => exact congrArg address (by simpa [key] using h)

end ImportSource

/-- Locations share an entry when they have the same source, whatever their parts are. -/
theorem ImportLocation.key_eq_iff {l l' : ImportLocation} : l.key = l'.key ↔ l.source = l'.source :=
  ImportSource.key_injective.eq_iff

namespace Importer

variable {i : Importer} {location : ImportLocation} {control : CacheControl}

/-! ## One load -/

/-- The cache that a fetch starts from. -/
def cacheBefore (i : Importer) (location : ImportLocation) : CacheControl → ImportCache
  | .standard => { i.cache with misses := i.cache.misses + 1 }
  | .mustRevalidate => i.cache.erase location.key
  | .noCache | .noStore => i.cache

/-- The answer to a fetch that comes now. -/
def answer (i : Importer) (location : ImportLocation) : Except Error String :=
  i.fetcher location (i.fetched.count location.key)

/-- The cache that a fetch leaves. -/
def cacheAfter (i : Importer) (location : ImportLocation) (control : CacheControl) : ImportCache :=
  match i.answer location with
  | .ok text =>
    if control = .noStore then i.cacheBefore location control
    else (i.cacheBefore location control).insert location.key text
  | .error _ => i.cacheBefore location control

theorem load_of_fetch {cache : ImportCache} (hcache : cache = i.cacheBefore location control) :
    { i with cache }.fetchAndStore location control =
      (i.answer location,
        ⟨i.fetcher, i.cacheAfter location control, i.fetched ++ [location.key]⟩) := by
  subst hcache
  have fetched : Importer.fetch { i with cache := i.cacheBefore location control } location =
      (i.answer location,
        ⟨i.fetcher, i.cacheBefore location control, i.fetched ++ [location.key]⟩) := rfl
  rw [fetchAndStore, fetched, cacheAfter]
  cases i.answer location with
  | error e => rfl
  | ok text =>
    change (_, Importer.store _ control location.key text) = _
    rw [store]
    split <;> rfl

theorem isCached_iff :
    i.isCached location = true ↔
      ∃ text, Keyed.find? location.key i.cache.entries = some text := by
  rw [isCached, ImportCache.contains, Option.isSome_iff_exists]

/-- **All that a load can do**: it gives a cached document, if it may and there is one, and
otherwise what it fetches. -/
theorem load_cases (i : Importer) (location : ImportLocation) (control : CacheControl) :
    (∃ text, control = .standard ∧ Keyed.find? location.key i.cache.entries = some text ∧
      i.load location control =
        (.ok text, { i with cache := { i.cache with hits := i.cache.hits + 1 } })) ∨
    (¬ (control = .standard ∧ i.isCached location = true) ∧
      i.load location control = (i.answer location,
        ⟨i.fetcher, i.cacheAfter location control, i.fetched ++ [location.key]⟩)) := by
  cases control with
  | noCache | noStore | mustRevalidate => exact .inr ⟨by simp, load_of_fetch rfl⟩
  | standard =>
    rw [load, ImportCache.get, isCached_iff]
    cases Keyed.find? location.key i.cache.entries with
    | some text => exact .inl ⟨text, rfl, rfl, rfl⟩
    | none => exact .inr ⟨by simp, load_of_fetch rfl⟩

theorem load_fetcher (i : Importer) (location : ImportLocation) (control : CacheControl) :
    (i.load location control).2.fetcher = i.fetcher := by
  obtain ⟨text, -, -, hload⟩ | ⟨-, hload⟩ := i.load_cases location control <;> rw [hload]

/-- A load fetches once, unless it may give a document that is cached. -/
theorem load_fetched (i : Importer) (location : ImportLocation) (control : CacheControl) :
    (i.load location control).2.fetched =
      if control = .standard ∧ i.isCached location = true then i.fetched
      else i.fetched ++ [location.key] := by
  obtain ⟨text, hcontrol, hfind, hload⟩ | ⟨hcached, hload⟩ := i.load_cases location control <;>
    rw [hload]
  · rw [if_pos ⟨hcontrol, isCached_iff.mpr ⟨text, hfind⟩⟩]
  · rw [if_neg hcached]

/-- A load that fails gives the error of the fetcher, and takes nothing out of the cache but an
entry that it was to replace. -/
theorem load_error {e : Error} (h : (i.load location control).1 = .error e) :
    i.answer location = .error e ∧ (i.load location control).2.cache.entries =
      if control = .mustRevalidate then Keyed.erase location.key i.cache.entries
      else i.cache.entries := by
  obtain ⟨text, -, -, hload⟩ | ⟨-, hload⟩ := i.load_cases location control <;> rw [hload] at h ⊢
  · cases h
  · have failed : i.cacheAfter location control = i.cacheBefore location control := by
      rw [cacheAfter, show i.answer location = .error e from h]
    refine ⟨h, ?_⟩
    change (i.cacheAfter location control).entries = _
    rw [failed]
    cases control <;> rfl

/-- What is not to be stored leaves the cache alone. -/
theorem load_noStore (i : Importer) (location : ImportLocation) :
    (i.load location .noStore).2.cache = i.cache := by
  obtain ⟨text, hcontrol, -⟩ | ⟨-, hload⟩ := i.load_cases location .noStore
  · cases hcontrol
  · rw [hload]
    change i.cacheAfter location .noStore = i.cache
    rw [cacheAfter]
    cases i.answer location <;> rfl

/-- Loads that may give a cached document count as hits or misses, and the misses are fetched. -/
theorem load_counts (i : Importer) (location : ImportLocation) (control : CacheControl) :
    (i.load location control).2.cache.hits + (i.load location control).2.cache.misses =
        i.cache.hits + i.cache.misses + (if control = .standard then 1 else 0) ∧
      (i.load location control).2.fetched.length + (i.load location control).2.cache.hits =
        i.fetched.length + i.cache.hits + 1 := by
  obtain ⟨text, rfl, -, hload⟩ | ⟨-, hload⟩ := i.load_cases location control <;> rw [hload]
  · exact ⟨Nat.add_right_comm _ _ _, rfl⟩
  · have counts : (i.cacheAfter location control).hits = (i.cacheBefore location control).hits ∧
        (i.cacheAfter location control).misses = (i.cacheBefore location control).misses := by
      rw [cacheAfter]
      cases i.answer location with
      | error e => exact ⟨rfl, rfl⟩
      | ok text => dsimp only; split <;> exact ⟨rfl, rfl⟩
    dsimp only
    rw [counts.1, counts.2, List.length_append]
    cases control <;> exact ⟨rfl, Nat.add_right_comm _ _ _⟩

/-! ## Runs -/

/-- A load and what came of it. -/
structure Event where
  location : ImportLocation
  control : CacheControl
  /-- Whether the document was fetched. -/
  fetched : Bool
  result : Except Error String

namespace Event

/-- The document that the load put into the cache. -/
def Stores (e : Event) (text : String) : Prop :=
  e.control ≠ .noStore ∧ e.fetched = true ∧ e.result = .ok text

/-- The document was to be replaced, and could not be fetched. -/
def Drops (e : Event) : Prop :=
  e.control = .mustRevalidate ∧ ∃ error, e.result = .error error

end Event

/-- A load with what comes of it now. -/
def event (i : Importer) (location : ImportLocation) (control : CacheControl) : Event where
  location
  control
  fetched := decide ((i.load location control).2.fetched ≠ i.fetched)
  result := (i.load location control).1

/-- The importer after a run of loads. -/
def after (i : Importer) (requests : List (ImportLocation × CacheControl)) : Importer :=
  requests.foldl (fun i request => (i.load request.1 request.2).2) i

/-- A run of loads with what comes of each. -/
def events : Importer → List (ImportLocation × CacheControl) → List Event
  | _, [] => []
  | i, (location, control) :: requests =>
    i.event location control :: (i.load location control).2.events requests

theorem after_concat (i : Importer) (requests : List (ImportLocation × CacheControl))
    (location : ImportLocation) (control : CacheControl) :
    i.after (requests ++ [(location, control)]) =
      ((i.after requests).load location control).2 := by
  rw [after, List.foldl_append]
  rfl

theorem events_concat (i : Importer) (requests : List (ImportLocation × CacheControl))
    (location : ImportLocation) (control : CacheControl) :
    i.events (requests ++ [(location, control)]) =
      i.events requests ++ [(i.after requests).event location control] := by
  induction requests generalizing i with
  | nil => rfl
  | cons request requests ih => exact congrArg (_ :: ·) (ih _)

theorem after_fetcher (i : Importer) (requests : List (ImportLocation × CacheControl)) :
    (i.after requests).fetcher = i.fetcher := by
  induction requests generalizing i with
  | nil => rfl
  | cons request requests ih => exact (ih _).trans (load_fetcher i _ _)

/-! ## What is cached -/

theorem event_stores_iff {text : String} :
    (i.event location control).Stores text ↔
      control ≠ .noStore ∧ ¬ (control = .standard ∧ i.isCached location = true) ∧
        i.answer location = .ok text := by
  refine and_congr_right fun _ => ?_
  change decide _ = true ∧ (i.load location control).1 = .ok text ↔ _
  rw [decide_eq_true_iff, load_fetched]
  obtain ⟨cached, hcontrol, hfind, -⟩ | ⟨hcached, hload⟩ := i.load_cases location control
  · simp [hcontrol, isCached_iff.mpr ⟨cached, hfind⟩]
  · simp [hcached, hload]

/-- **What one load does to the entries**: the document of a source is the one that the load stores,
or the one there was, unless the load stores another or drops it. -/
theorem find?_after_load (i : Importer) (location : ImportLocation) (control : CacheControl)
    (key text : String) :
    Keyed.find? key (i.load location control).2.cache.entries = some text ↔
      (location.key = key ∧ (i.event location control).Stores text) ∨
      (¬ (location.key = key ∧ ((∃ stored, (i.event location control).Stores stored) ∨
          (i.event location control).Drops)) ∧
        Keyed.find? key i.cache.entries = some text) := by
  have drops_iff : (i.event location control).Drops ↔
      control = .mustRevalidate ∧ ∃ e, (i.load location control).1 = .error e := Iff.rfl
  simp only [event_stores_iff, drops_iff]
  obtain ⟨cached, rfl, hfind, hload⟩ | ⟨hcached, hload⟩ := i.load_cases location control
  · simp [hload, isCached_iff.mpr ⟨cached, hfind⟩]
  · rw [hload]
    simp only [hcached, not_false_eq_true, true_and, cacheAfter]
    by_cases hkey : location.key = key
    · subst hkey
      cases i.answer location <;> cases control <;>
        simp [cacheBefore, ImportCache.erase, ImportCache.insert, Keyed.find?_insert_self,
          Keyed.find?_erase]
    · have hne : key ≠ location.key := Ne.symm hkey
      cases i.answer location <;> cases control <;>
        simp [cacheBefore, ImportCache.erase, ImportCache.insert, Keyed.find?_insert_of_ne hne,
          Keyed.find?_erase, hkey, hne]

/-- Some event is of one kind, and all those after it are of another. -/
def Since (P Q : Event → Prop) (events : List Event) : Prop :=
  ∃ before e after, events = before ++ e :: after ∧ P e ∧ ∀ e' ∈ after, Q e'

theorem not_since_nil {P Q : Event → Prop} : ¬ Since P Q [] := by
  rintro ⟨before, e, after, h, -⟩
  exact absurd h (by simp)

/-- The last event either is of the first kind, or of the second after such a one. -/
theorem since_concat {P Q : Event → Prop} {events : List Event} {e : Event} :
    Since P Q (events ++ [e]) ↔ P e ∨ (Q e ∧ Since P Q events) := by
  constructor
  · rintro ⟨before, first, after, h, hfirst, hafter⟩
    obtain rfl | ⟨middle, last, rfl⟩ := List.eq_nil_or_concat after
    · obtain ⟨-, rfl⟩ := List.append_inj' h rfl |>.imp_right List.head_eq_of_cons_eq
      exact .inl hfirst
    · rw [List.concat_eq_append] at h hafter
      rw [← List.cons_append, ← List.append_assoc] at h
      obtain ⟨rfl, hlast⟩ := List.append_inj' h rfl
      obtain rfl := List.head_eq_of_cons_eq hlast
      refine .inr ⟨hafter e (by simp), before, first, middle, rfl, hfirst, fun e' he' => ?_⟩
      exact hafter e' (List.mem_append_left _ he')
  · rintro (he | ⟨he, before, first, middle, rfl, hfirst, hmiddle⟩)
    · exact ⟨events, e, [], rfl, he, nofun⟩
    · refine ⟨before, first, middle ++ [e], by simp, hfirst, fun e' he' => ?_⟩
      rcases List.mem_append.mp he' with he' | he'
      · exact hmiddle e' he'
      · rwa [List.mem_singleton.mp he']

/-- A document is cached when it was stored, and since then no other was and it was not dropped. -/
theorem find?_after (fetcher : Fetcher) (requests : List (ImportLocation × CacheControl))
    (key text : String) :
    Keyed.find? key ((start fetcher).after requests).cache.entries = some text ↔
      Since (fun e => e.location.key = key ∧ e.Stores text)
        (fun e => ¬ (e.location.key = key ∧ ((∃ stored, e.Stores stored) ∨ e.Drops)))
        ((start fetcher).events requests) := by
  induction requests using List.reverseRecOn with
  | nil => exact iff_of_false nofun not_since_nil
  | append_singleton requests request ih =>
    obtain ⟨location, control⟩ := request
    rw [after_concat, events_concat, since_concat, find?_after_load, ih]
    rfl

/-- Some document is cached when one was stored, and since then none was dropped. -/
theorem isCached_after (fetcher : Fetcher) (requests : List (ImportLocation × CacheControl))
    (l : ImportLocation) :
    ((start fetcher).after requests).isCached l = true ↔
      Since (fun e => e.location.key = l.key ∧ ∃ text, e.Stores text)
        (fun e => ¬ (e.location.key = l.key ∧ e.Drops)) ((start fetcher).events requests) := by
  induction requests using List.reverseRecOn with
  | nil => exact iff_of_false nofun not_since_nil
  | append_singleton requests request ih =>
    obtain ⟨location, control⟩ := request
    rw [after_concat, events_concat, since_concat, ← ih, isCached_iff, isCached_iff]
    simp only [find?_after_load]
    change _ ↔ (location.key = l.key ∧ _) ∨ (¬ (location.key = l.key ∧ _) ∧ _)
    constructor
    · rintro ⟨text, ⟨hkey, hstores⟩ | ⟨hkept, hfind⟩⟩
      · exact .inl ⟨hkey, text, hstores⟩
      · exact .inr ⟨fun h => hkept ⟨h.1, .inr h.2⟩, text, hfind⟩
    · rintro (⟨hkey, text, hstores⟩ | ⟨hkept, text, hfind⟩)
      · exact ⟨text, .inl ⟨hkey, hstores⟩⟩
      · by_cases hstores : location.key = l.key ∧
            ∃ stored, (((start fetcher).after requests).event location control).Stores stored
        · obtain ⟨hkey, stored, hstored⟩ := hstores
          exact ⟨stored, .inl ⟨hkey, hstored⟩⟩
        · refine ⟨text, .inr ⟨?_, hfind⟩⟩
          rintro ⟨hkey, hstored | hdrops⟩
          · exact hstores ⟨hkey, hstored⟩
          · exact hkept ⟨hkey, hdrops⟩

/-! ## What adds up -/

/-- The fetches of a run are those of its loads. -/
theorem fetched_after (i : Importer) (requests : List (ImportLocation × CacheControl)) :
    (i.after requests).fetched =
      i.fetched ++ ((i.events requests).filter (·.fetched)).map (·.location.key) := by
  induction requests using List.reverseRecOn with
  | nil => exact (List.append_nil _).symm
  | append_singleton requests request ih =>
    obtain ⟨location, control⟩ := request
    rw [after_concat, events_concat, List.filter_append, List.map_append, ← List.append_assoc, ← ih,
      load_fetched]
    split
    case isTrue h =>
      have kept : ((i.after requests).event location control).fetched = false := by
        rw [event, load_fetched, if_pos h]
        simp
      rw [List.filter_cons_of_neg (by simp [kept])]
      exact (List.append_nil _).symm
    case isFalse h =>
      have fetched : ((i.after requests).event location control).fetched = true := by
        rw [event, load_fetched, if_neg h]
        simp
      rw [List.filter_cons_of_pos fetched]
      rfl

theorem counts_after (fetcher : Fetcher) (requests : List (ImportLocation × CacheControl)) :
    ((start fetcher).after requests).cache.hits + ((start fetcher).after requests).cache.misses =
        requests.countP (·.2 = .standard) ∧
      ((start fetcher).after requests).fetched.length +
        ((start fetcher).after requests).cache.hits = requests.length := by
  induction requests using List.reverseRecOn with
  | nil => exact ⟨rfl, rfl⟩
  | append_singleton requests request ih =>
    obtain ⟨location, control⟩ := request
    obtain ⟨hcount, hlength⟩ := ((start fetcher).after requests).load_counts location control
    rw [after_concat, hcount, hlength, ih.1, ih.2, List.countP_append, List.length_append,
      List.countP_singleton]
    refine ⟨?_, rfl⟩
    cases control <;> rfl

/-- **A run of loads**, by any locations and cache controls. The fetcher sees how often a source was
fetched before, so its answers may differ from fetch to fetch.

A source has a text cached when a load stored that text, and since then no other load of the source
stored one, and no revalidation of it failed; it is cached at all when some load stored a text, and
since then no revalidation of it failed. At any moment, a standard load gives a text without a fetch
when that text is cached, and fetches nothing only if there is one. What is not to be stored leaves
the cache alone. A load that fails gives the error of the fetcher, and leaves the entries alone
unless it was a revalidation. The standard loads are the hits and misses, and all loads but the hits
are fetches. Only locations with the same source have the same key: their parts do not matter, and
a file has no key in common with an address. -/
theorem run_of_loads (fetcher : Fetcher) (requests : List (ImportLocation × CacheControl)) :
    let i := (start fetcher).after requests
    let events := (start fetcher).events requests
    (∀ l text, Keyed.find? (ImportLocation.key l) i.cache.entries = some text ↔
      Since (fun e => e.location.key = l.key ∧ e.Stores text)
        (fun e => ¬ (e.location.key = l.key ∧ ((∃ stored, e.Stores stored) ∨ e.Drops))) events) ∧
    (∀ l, i.isCached l = true ↔
      Since (fun e => e.location.key = l.key ∧ ∃ text, e.Stores text)
        (fun e => ¬ (e.location.key = l.key ∧ e.Drops)) events) ∧
    (∀ l text, Keyed.find? (ImportLocation.key l) i.cache.entries = some text ↔
      (i.load l .standard).1 = .ok text ∧ (i.load l .standard).2.fetched = i.fetched) ∧
    (∀ l, i.isCached l = true ↔ (i.load l .standard).2.fetched = i.fetched) ∧
    (∀ l, (i.load l .noStore).2.cache = i.cache) ∧
    (∀ l control e, (i.load l control).1 = .error e →
      fetcher l (i.fetched.count l.key) = .error e ∧
        (control ≠ .mustRevalidate → (i.load l control).2.cache.entries = i.cache.entries)) ∧
    i.cache.hits + i.cache.misses = requests.countP (·.2 = .standard) ∧
    i.fetched.length = requests.length - i.cache.hits ∧
    i.fetched = (events.filter (·.fetched)).map (·.location.key) ∧
    ∀ l l' : ImportLocation, l.key = l'.key ↔ l.source = l'.source := by
  intro i events
  obtain ⟨hcounts, hlength⟩ := counts_after fetcher requests
  have standard : ∀ l, i.isCached l = true ↔ (i.load l .standard).2.fetched = i.fetched := by
    intro l
    rw [load_fetched]
    by_cases hcached : i.isCached l = true <;> simp [hcached]
  refine ⟨fun l => find?_after fetcher requests l.key, isCached_after fetcher requests, ?_,
    standard, i.load_noStore, ?_, hcounts, Nat.eq_sub_of_add_eq hlength, ?_, fun _ _ =>
    ImportLocation.key_eq_iff⟩
  · intro l text
    rw [← standard]
    obtain ⟨cached, -, hfind, hload⟩ | ⟨hcached, -⟩ := i.load_cases l .standard
    · simp [hfind, hload, isCached_iff]
    · have hcached : ¬ i.isCached l = true := fun h => hcached ⟨rfl, h⟩
      refine iff_of_false (fun h => hcached (isCached_iff.mpr ⟨text, h⟩)) fun h => hcached h.2
  · intro l control e h
    obtain ⟨herror, hentries⟩ := load_error h
    refine ⟨?_, fun hcontrol => hentries.trans (if_neg hcontrol)⟩
    rwa [answer, show i.fetcher = fetcher from after_fetcher (start fetcher) requests] at herror
  · exact fetched_after (start fetcher) requests

/-- A part of a document is cached with the whole, and both are gone when the source is. -/
example :
    let i := start (Fetcher.table [("file:a", [some "x", none])])
    let stored := i.after [(⟨.file "a", some "p"⟩, .standard)]
    stored.isCached ⟨.file "a", none⟩ = true ∧
      (stored.after [(⟨.file "a", none⟩, .mustRevalidate)]).isCached ⟨.file "a", some "p"⟩ =
        false := by
  decide +kernel

end Importer

end MarkupTemplate

import MarkupTemplate.Choices
import MarkupTemplate.Import.Fetcher

/-!
# The import cache

* `ImportCache` — fetched documents by source, and how often one was found or not.
* `Importer` — a fetcher with its cache and the sources fetched so far.
* `Importer.load` — the document at a location, from the cache or fetched.
-/

namespace MarkupTemplate

/-- Fetched documents by source. -/
structure ImportCache where
  entries : Keyed String
  hits : Nat
  misses : Nat
deriving DecidableEq, Repr

namespace ImportCache

/-- Nothing is cached. -/
def empty : ImportCache :=
  ⟨[], 0, 0⟩

/-- The document of a source, and the cache with one more hit or miss. -/
def get (c : ImportCache) (key : String) : Option String × ImportCache :=
  match Keyed.find? key c.entries with
  | some value => (some value, { c with hits := c.hits + 1 })
  | none => (none, { c with misses := c.misses + 1 })

/-- The cache with a document for a source. -/
def insert (c : ImportCache) (key value : String) : ImportCache :=
  { c with entries := Keyed.insert key value c.entries }

/-- The cache without the document of a source. -/
def erase (c : ImportCache) (key : String) : ImportCache :=
  { c with entries := Keyed.erase key c.entries }

/-- Whether the document of a source is cached. -/
def contains (c : ImportCache) (key : String) : Bool :=
  (Keyed.find? key c.entries).isSome

/-- The number of cached documents. -/
def size (c : ImportCache) : Nat :=
  c.entries.length

end ImportCache

/-- A fetcher with its cache. -/
structure Importer where
  fetcher : Fetcher
  cache : ImportCache
  /-- The sources that were fetched, in order, also those that could not be. -/
  fetched : List String

namespace Importer

/-- An importer that has fetched nothing. -/
def start (fetcher : Fetcher) : Importer :=
  ⟨fetcher, .empty, []⟩

/-- The document at a location, fetched. -/
def fetch (i : Importer) (location : ImportLocation) : Except Error String × Importer :=
  let key := location.key
  (i.fetcher location (i.fetched.count key), { i with fetched := i.fetched ++ [key] })

/-- The importer with a document in its cache, unless it must not be stored. -/
def store (i : Importer) (control : CacheControl) (key value : String) : Importer :=
  if control = .noStore then i else { i with cache := i.cache.insert key value }

/-- The document at a location, fetched and stored. -/
def fetchAndStore (i : Importer) (location : ImportLocation) (control : CacheControl) :
    Except Error String × Importer :=
  match i.fetch location with
  | (.ok value, i) => (.ok value, i.store control location.key value)
  | (.error e, i) => (.error e, i)

/-- The document at a location, as a cache control has it. -/
def load (i : Importer) (location : ImportLocation) (control : CacheControl) :
    Except Error String × Importer :=
  match control with
  | .standard =>
    match i.cache.get location.key with
    | (some value, cache) => (.ok value, { i with cache })
    | (none, cache) => { i with cache }.fetchAndStore location control
  | .mustRevalidate =>
    { i with cache := i.cache.erase location.key }.fetchAndStore location control
  | .noCache | .noStore => i.fetchAndStore location control

/-- Whether the document at a location is cached. -/
def isCached (i : Importer) (location : ImportLocation) : Bool :=
  i.cache.contains location.key

end Importer

end MarkupTemplate

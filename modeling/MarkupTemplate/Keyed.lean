/-!
# Maps that keep their order

Association lists in which every key was first inserted at its place. Inserting a key that is
present changes its value and leaves it where it is.

* `Keyed.insert`, `Keyed.ofPairs`, `Keyed.keys`, `Keyed.find?`, `Keyed.erase`.
* `Keyed.keys_insert` — the keys after an insertion.
* `Keyed.find?_insert_self` — an inserted value is found again.
-/

namespace MarkupTemplate

/-- A map as the list of its entries in order of first insertion. -/
abbrev Keyed (β : Type) := List (String × β)

namespace Keyed

variable {β : Type}

/-- The keys in order. -/
def keys (m : Keyed β) : List String :=
  m.map Prod.fst

/-- The value of a key. -/
def find? (key : String) : Keyed β → Option β
  | [] => none
  | (k, v) :: rest => if k = key then some v else find? key rest

/-- Give `key` the value `value`, at its old place if it has one and at the end otherwise. -/
def insert (key : String) (value : β) : Keyed β → Keyed β
  | [] => [(key, value)]
  | (k, v) :: rest => if k = key then (key, value) :: rest else (k, v) :: insert key value rest

/-- The map without `key`. -/
def erase (key : String) (m : Keyed β) : Keyed β :=
  m.filter fun e => e.1 != key

/-- The map that inserting the pairs one after the other builds. -/
def ofPairs (pairs : List (String × β)) : Keyed β :=
  pairs.foldl (fun m e => m.insert e.1 e.2) []

/-- An inserted value is found again. -/
theorem find?_insert_self (key : String) (value : β) (m : Keyed β) :
    find? key (insert key value m) = some value := by
  induction m with
  | nil => simp [insert, find?]
  | cons e rest ih =>
    obtain ⟨k, v⟩ := e
    by_cases h : k = key <;> simp [insert, find?, h, ih]

/-- Inserting one key does not change what another one has. -/
theorem find?_insert_of_ne {key other : String} (h : other ≠ key) (value : β) (m : Keyed β) :
    find? other (insert key value m) = find? other m := by
  induction m with
  | nil => simp [insert, find?, Ne.symm h]
  | cons e rest ih =>
    obtain ⟨k, v⟩ := e
    by_cases hk : k = key
    · subst hk; simp [insert, find?, Ne.symm h]
    · simp only [insert, hk, if_false, find?, ih]

/-- The keys after an insertion: a new key comes last, a known one changes nothing. -/
theorem keys_insert (key : String) (value : β) (m : Keyed β) :
    keys (insert key value m) = if key ∈ keys m then keys m else keys m ++ [key] := by
  induction m with
  | nil => simp [insert, keys]
  | cons e rest ih =>
    obtain ⟨k, v⟩ := e
    by_cases h : k = key
    · simp [insert, keys, h]
    · have h' : key ≠ k := Ne.symm h
      simp only [insert, h, if_false]
      simp only [keys] at ih ⊢
      simp only [List.map_cons, ih, List.mem_cons, h', false_or]
      by_cases hm : key ∈ List.map Prod.fst rest <;> simp [hm]

end Keyed

end MarkupTemplate

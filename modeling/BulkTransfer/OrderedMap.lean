/-!
# Maps in insertion order

A map that lists its keys in the order in which they first came.  A key that is set again keeps its
place and takes the new value.  `find?_insert` and the two lemmas on the keys after `insert` say
all about setting a key.
-/

namespace BulkTransfer

/-- A map as the list of its entries, oldest key first. -/
structure OrderedMap (κ α : Type) where
  pairs : List (κ × α)

namespace OrderedMap

variable {κ α : Type} [BEq κ]

def empty : OrderedMap κ α := ⟨[]⟩

def find? (m : OrderedMap κ α) (key : κ) : Option α := m.pairs.lookup key

def contains (m : OrderedMap κ α) (key : κ) : Bool := (m.find? key).isSome

def keys (m : OrderedMap κ α) : List κ := m.pairs.map Prod.fst

def insertIn (key : κ) (value : α) : List (κ × α) → List (κ × α)
  | [] => [(key, value)]
  | (k, v) :: rest => if key == k then (k, value) :: rest else (k, v) :: insertIn key value rest

def insert (m : OrderedMap κ α) (key : κ) (value : α) : OrderedMap κ α :=
  ⟨insertIn key value m.pairs⟩

def erase (m : OrderedMap κ α) (key : κ) : OrderedMap κ α :=
  ⟨m.pairs.filter fun entry => !(key == entry.1)⟩

/-- The map of a list of entries, later values replacing earlier ones. -/
def ofList (entries : List (κ × α)) : OrderedMap κ α :=
  entries.foldl (fun m entry => m.insert entry.1 entry.2) empty

/-! ## Setting a key -/

variable [LawfulBEq κ]

theorem lookup_insertIn (key k : κ) (value : α) (entries : List (κ × α)) :
    (insertIn key value entries).lookup k =
      if k == key then some value else entries.lookup k := by
  induction entries with
  | nil => by_cases h : k == key <;> simp [insertIn, List.lookup_cons, h]
  | cons entry rest ih =>
    obtain ⟨a, v⟩ := entry
    by_cases hka : key == a
    · obtain rfl := eq_of_beq hka
      by_cases hk : k == key <;> simp [insertIn, List.lookup_cons, hk]
    · by_cases hk : k == a
      · obtain rfl := eq_of_beq hk
        have : (k == key) = false := by
          simpa [BEq.comm] using hka
        simp [insertIn, hka, this]
      · simp [insertIn, hka, List.lookup_cons, hk, ih]

theorem find?_insert (m : OrderedMap κ α) (key k : κ) (value : α) :
    (m.insert key value).find? k = if k == key then some value else m.find? k :=
  lookup_insertIn key k value m.pairs

theorem keys_insert_of_not_mem (m : OrderedMap κ α) (key : κ) (value : α) (h : key ∉ m.keys) :
    (m.insert key value).keys = m.keys ++ [key] := by
  obtain ⟨entries⟩ := m
  simp only [keys, insert] at h ⊢
  induction entries with
  | nil => simp [insertIn]
  | cons entry rest ih =>
    obtain ⟨a, v⟩ := entry
    simp only [List.map_cons, List.mem_cons, not_or] at h
    have hka : (key == a) = false := by simpa using h.1
    simp [insertIn, hka, ih h.2]

/-! ## Listed entries -/

theorem lookup_eq_some_iff_mem {l : List (κ × α)} (h : (l.map Prod.fst).Nodup) {key : κ}
    {value : α} : l.lookup key = some value ↔ (key, value) ∈ l := by
  induction l with
  | nil => simp
  | cons entry rest ih =>
    obtain ⟨k, v⟩ := entry
    obtain ⟨hnew, hrest⟩ := List.nodup_cons.1 h
    by_cases hkey : key = k
    · subst hkey
      have hnot : (key, value) ∉ rest := fun hmem => hnew (List.mem_map.2 ⟨_, hmem, rfl⟩)
      simp [hnot, eq_comm]
    · have hskip : (key == k) = false := by simpa using hkey
      simp [List.lookup_cons, hskip, ih hrest, hkey]

theorem mem_keys_iff (m : OrderedMap κ α) {key : κ} :
    key ∈ m.keys ↔ ∃ value, m.find? key = some value := by
  rw [← Option.isSome_iff_exists, find?, List.lookup_isSome_iff, keys, List.mem_map]
  constructor
  · rintro ⟨entry, hentry, rfl⟩
    exact ⟨entry, hentry, beq_self_eq_true _⟩
  · rintro ⟨entry, hentry, hkey⟩
    exact ⟨entry, hentry, (eq_of_beq hkey).symm⟩

/-! ## Numbered entries -/

omit [BEq κ] [LawfulBEq κ] in
theorem map_some_filterMap {f : κ → Option α} {l : List κ} (h : ∀ a ∈ l, (f a).isSome) :
    (l.filterMap f).map some = l.map f := by
  induction l with
  | nil => rfl
  | cons a rest ih =>
    obtain ⟨b, hb⟩ := Option.isSome_iff_exists.1 (h a List.mem_cons_self)
    simp [hb, ih fun c hc => h c (List.mem_cons_of_mem _ hc)]

/-- Looking up the numbers below a bound, each of which has one entry, puts the entries in order. -/
theorem getElem?_filterMap_lookup {n : Nat} {entries : List (Nat × α)}
    (h : (entries.map Prod.fst).Perm (List.range n)) :
    let found := (List.range n).filterMap fun i => entries.lookup i
    found.length = n ∧ ∀ i a, found[i]? = some a ↔ (i, a) ∈ entries := by
  intro found
  have hnodup : (entries.map Prod.fst).Nodup := h.nodup_iff.2 List.nodup_range
  -- No look-up fails, so `filterMap` drops nothing.
  have hmap : found.map some = (List.range n).map fun i => entries.lookup i := by
    refine map_some_filterMap fun i hi => ?_
    obtain ⟨entry, hentry, rfl⟩ := List.mem_map.1 (h.mem_iff.2 hi)
    rw [(lookup_eq_some_iff_mem hnodup).2 hentry]
    rfl
  have hlength : found.length = n := by simpa using congrArg List.length hmap
  refine ⟨hlength, fun i a => ?_⟩
  rw [← lookup_eq_some_iff_mem hnodup]
  by_cases hi : i < n
  · have hget := congrArg (·[i]?) hmap
    simp only [List.getElem?_map, List.getElem?_range hi, Option.map_some] at hget
    obtain ⟨value, hvalue, hlookup⟩ := Option.map_eq_some_iff.1 hget
    rw [hvalue, hlookup]
  · rw [List.getElem?_eq_none (by omega), lookup_eq_some_iff_mem hnodup]
    refine iff_of_false (by simp) fun hmem => hi ?_
    exact List.mem_range.1 (h.mem_iff.1 (List.mem_map.2 ⟨_, hmem, rfl⟩))

end OrderedMap

end BulkTransfer

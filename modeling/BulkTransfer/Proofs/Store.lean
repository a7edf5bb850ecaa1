import BulkTransfer.Enumeration.Remote
import BulkTransfer.Store

/-!
# Objects of a store

What a store holds after an object is set or a container is made: the object, or an empty container
unless it was there, and all else as before.
-/

namespace BulkTransfer

namespace Store

variable (s : Store)

/-- Neither objects nor listing are made to fail. -/
structure IsSound (s : Store) : Prop where
  objects : ∀ name, s.failureOf name = none
  listing : solid s.listingFailure = none

/-- What a store holds is in its containers. -/
theorem object?_congr {s t : Store} (h : s.containers = t.containers) (container name : Text) :
    s.object? container name = t.object? container name := by
  unfold object?
  rw [h]

theorem hasContainer_congr {s t : Store} (h : s.containers = t.containers) (container : Text) :
    s.hasContainer container = t.hasContainer container := by
  unfold hasContainer
  rw [h]

theorem find?_empty {κ α : Type} [BEq κ] (key : κ) :
    (OrderedMap.empty : OrderedMap κ α).find? key = none := rfl

theorem failureOf_of_empty {s : Store} (h : s.failures = .empty) (name : Text) :
    s.failureOf name = none := by
  rw [failureOf, h, find?_empty]
  rfl

theorem object?_seed (container name container' name' : Text) (content : Bytes) :
    (s.seed container name content).object? container' name' =
      if container' = container ∧ name' = name then some content
      else s.object? container' name' := by
  simp only [object?, seed, OrderedMap.find?_insert, beq_iff_eq]
  by_cases hc : container' = container
  · subst hc
    rw [if_pos rfl, Option.bind_some, OrderedMap.find?_insert]
    cases s.containers.find? container' <;> simp [find?_empty]
  · simp [hc]

theorem hasContainer_seed (container name container' : Text) (content : Bytes) :
    (s.seed container name content).hasContainer container' =
      (container' == container || s.hasContainer container') := by
  simp only [hasContainer, OrderedMap.contains, seed, OrderedMap.find?_insert]
  by_cases hc : container' = container <;> simp [hc]

theorem object?_withContainer (container container' name : Text) :
    (s.withContainer container).object? container' name = s.object? container' name := by
  rw [withContainer]
  split
  · rfl
  · next h =>
    simp only [object?, OrderedMap.find?_insert, beq_iff_eq]
    by_cases hc : container' = container
    · subst hc
      have hnone : s.containers.find? container' = none := by
        simpa [hasContainer, OrderedMap.contains] using h
      simp [hnone, find?_empty]
    · simp [hc]

theorem hasContainer_withContainer (container container' : Text) :
    (s.withContainer container).hasContainer container' =
      (container' == container || s.hasContainer container') := by
  rw [withContainer]
  split
  · next h =>
    by_cases hc : container' = container
    · subst hc
      simp [h]
    · simp [hc]
  · simp only [hasContainer, OrderedMap.contains, OrderedMap.find?_insert]
    by_cases hc : container' = container <;> simp [hc]

theorem withContainer_kept (container : Text) :
    (s.withContainer container).failures = s.failures ∧
      (s.withContainer container).listingFailure = s.listingFailure ∧
      (s.withContainer container).calls = s.calls := by
  rw [withContainer]
  split <;> exact ⟨rfl, rfl, rfl⟩

/-- Listing the objects of a container under a key prefix gives their names. -/
theorem exists_list {s : Store} {container : Text} (hlisting : solid s.listingFailure = none)
    (hthere : s.hasContainer container = true) (keys : Text) :
    ∃ names, (s.list container (Enumeration.listingPrefix keys)).1 = .ok names ∧
      ∀ name, name ∈ names ↔
        keys <+: name ∧ ∃ content, s.object? container name = some content := by
  obtain ⟨objects, hobjects⟩ := Option.isSome_iff_exists.1 hthere
  have hstart : (Enumeration.listingPrefix keys).getD [] = keys := by
    rw [Enumeration.listingPrefix]
    split
    · next hempty => exact (List.isEmpty_iff.1 hempty).symm
    · rfl
  simp only [list, hlisting, hobjects, object?, Option.bind_some, Except.ok.injEq, exists_eq_left',
    List.mem_filter, hstart, List.isPrefixOf_iff_prefix, OrderedMap.mem_keys_iff]
  exact fun name => and_comm

end Store

end BulkTransfer

import Mathlib.Tactic

namespace Library.TreeMap

/-!
# Counting and summing over finite maps

`total weight map` adds up a natural-number weight over all bindings of a
map.  Changing one binding changes the total by the difference of the two
weights, which is stated through the map without that binding.
-/

open Std

variable {κ V : Type} [Ord κ] [TransOrd κ] [LawfulEqOrd κ]

omit [LawfulEqOrd κ] in
theorem mem_of_getElem?
    {map : ExtTreeMap κ V}
    {key : κ}
    {value : V}
    (bound : map[key]? = some value) : key ∈ map := by
  rw [ExtTreeMap.mem_iff_isSome_getElem?, bound]
  rfl

/-- A map without keys is the empty map. -/
theorem eq_empty_of_not_mem
    {map : ExtTreeMap κ V}
    (unbound : ∀ key, key ∉ map) : map = ∅ := by
  refine ExtTreeMap.ext_getElem? fun key => ?_
  simp [ExtTreeMap.getElem?_eq_none (unbound key)]

/-- The bindings of a map are pairwise different. -/
theorem nodup_toList (map : ExtTreeMap κ V) : map.toList.Nodup := by
  refine ExtTreeMap.distinct_keys_toList.imp ?_
  intro first second differentKeys same
  exact differentKeys (by simp [same])

/-- A map whose domain is a duplicate-free list has the list's size. -/
theorem size_eq_length
    {map : ExtTreeMap κ V}
    {domain : List κ}
    (noDuplicates : domain.Nodup)
    (sameDomain : ∀ key, key ∈ map ↔ key ∈ domain) :
    map.size = domain.length := by
  have keysNodup : map.keys.Nodup :=
    ExtTreeMap.distinct_keys.imp fun different same =>
      different (by simp [same])
  have permuted : map.keys.Perm domain := by
    refine (List.perm_ext_iff_of_nodup keysNodup noDuplicates).mpr ?_
    intro key
    rw [ExtTreeMap.mem_keys, sameDomain]
  rw [← ExtTreeMap.length_keys, permuted.length_eq]

/-- A map that binds a duplicate-free list is at least as large. -/
theorem length_le_size
    {map : ExtTreeMap κ V}
    {bound : List κ}
    (noDuplicates : bound.Nodup)
    (allBound : ∀ key ∈ bound, key ∈ map) :
    bound.length ≤ map.size := by
  have subset : bound.Subperm map.keys :=
    List.subperm_of_subset noDuplicates fun key member =>
      ExtTreeMap.mem_keys.mpr (allBound key member)
  rw [← ExtTreeMap.length_keys]
  exact subset.length_le

/-- Dropping a binding drops whatever was last written to it. -/
theorem erase_insert
    (map : ExtTreeMap κ V)
    (key : κ)
    (value : V) :
    (map.insert key value).erase key = map.erase key := by
  refine ExtTreeMap.ext_getElem? fun other => ?_
  rw [ExtTreeMap.getElem?_erase, ExtTreeMap.getElem?_erase,
    ExtTreeMap.getElem?_insert]
  by_cases same : key = other <;> simp [same]

/-- Writing back a changed binding is modifying it in place. -/
theorem insert_eq_modify
    {map : ExtTreeMap κ V}
    {key : κ}
    {value : V}
    (bound : map[key]? = some value)
    (change : V → V) :
    map.insert key (change value) = map.modify key change := by
  refine ExtTreeMap.ext_getElem? fun other => ?_
  rw [ExtTreeMap.getElem?_insert, ExtTreeMap.getElem?_modify, bound]
  rfl

/-- A binding splits off the bindings of the other keys. -/
theorem toList_perm_cons_erase
    {map : ExtTreeMap κ V}
    {key : κ}
    {value : V}
    (bound : map[key]? = some value) :
    map.toList.Perm ((key, value) :: (map.erase key).toList) := by
  have absent : (key, value) ∉ (map.erase key).toList := by
    simp [ExtTreeMap.mem_toList_iff_getElem?_eq_some]
  refine (List.perm_ext_iff_of_nodup (nodup_toList map)
    (List.nodup_cons.mpr ⟨absent, nodup_toList _⟩)).mpr ?_
  rintro ⟨otherKey, otherValue⟩
  rw [List.mem_cons, ExtTreeMap.mem_toList_iff_getElem?_eq_some,
    ExtTreeMap.mem_toList_iff_getElem?_eq_some, ExtTreeMap.getElem?_erase]
  by_cases same : key = otherKey
  · subst same
    simp [bound, eq_comm]
  · simp [same, Ne.symm same]

/-- Drop the bindings of a list of keys. -/
def eraseAll (map : ExtTreeMap κ V) (keys : List κ) : ExtTreeMap κ V :=
  keys.foldl (fun rest key => rest.erase key) map

theorem getElem?_eraseAll
    [DecidableEq κ]
    (map : ExtTreeMap κ V)
    (keys : List κ)
    (key : κ) :
    (eraseAll map keys)[key]? = if key ∈ keys then none else map[key]? := by
  induction keys generalizing map with
  | nil =>
      simp [eraseAll]
  | cons first rest inductionHypothesis =>
      have step := inductionHypothesis (map.erase first)
      rw [eraseAll, List.foldl_cons, ← eraseAll, step,
        ExtTreeMap.getElem?_erase]
      by_cases same : first = key
      · simp [same]
      · simp [same, Ne.symm same]

omit [LawfulEqOrd κ] in
theorem eraseAll_concat
    (map : ExtTreeMap κ V)
    (keys : List κ)
    (key : κ) :
    eraseAll map (keys ++ [key]) = (eraseAll map keys).erase key := by
  simp [eraseAll]

theorem eraseAll_insert
    [DecidableEq κ]
    (map : ExtTreeMap κ V)
    {keys : List κ}
    {key : κ}
    (kept : key ∉ keys)
    (value : V) :
    eraseAll (map.insert key value) keys =
      (eraseAll map keys).insert key value := by
  refine ExtTreeMap.ext_getElem? fun other => ?_
  rw [getElem?_eraseAll, ExtTreeMap.getElem?_insert,
    ExtTreeMap.getElem?_insert, getElem?_eraseAll]
  by_cases same : key = other
  · subst same
    simp [kept]
  · simp [same]

/-- The sum of a weight over all bindings. -/
def total (weight : κ → V → Nat) (map : ExtTreeMap κ V) : Nat :=
  (map.toList.map fun binding => weight binding.1 binding.2).sum

omit [LawfulEqOrd κ] in
@[simp] theorem total_empty (weight : κ → V → Nat) :
    total weight (∅ : ExtTreeMap κ V) = 0 := by
  simp [total, ExtTreeMap.toList_eq_nil_iff.mpr]

/-- A bound key contributes its weight. -/
theorem total_of_bound
    (weight : κ → V → Nat)
    {map : ExtTreeMap κ V}
    {key : κ}
    {value : V}
    (bound : map[key]? = some value) :
    total weight map = weight key value + total weight (map.erase key) := by
  unfold total
  rw [((toList_perm_cons_erase bound).map _).sum_eq]
  simp

/-- An unbound key contributes nothing. -/
theorem total_of_unbound
    (weight : κ → V → Nat)
    {map : ExtTreeMap κ V}
    {key : κ}
    (unbound : map[key]? = none) :
    total weight (map.erase key) = total weight map := by
  congr 1
  apply ExtTreeMap.ext_getElem?
  intro other
  rw [ExtTreeMap.getElem?_erase]
  by_cases same : key = other
  · subst same
    simp [unbound]
  · simp [same]

/-- Binding a key gives it exactly the new weight. -/
theorem total_insert
    (weight : κ → V → Nat)
    (map : ExtTreeMap κ V)
    (key : κ)
    (value : V) :
    total weight (map.insert key value) =
      weight key value + total weight (map.erase key) := by
  have bound : (map.insert key value)[key]? = some value := by simp
  rw [total_of_bound weight bound, erase_insert]

/-- A total that is not zero has a binding of some weight. -/
theorem exists_of_total_ne_zero
    {weight : κ → V → Nat}
    {map : ExtTreeMap κ V}
    (nonzero : total weight map ≠ 0) :
    ∃ key value, map[key]? = some value ∧ weight key value ≠ 0 := by
  by_contra none
  push Not at none
  refine nonzero (List.sum_eq_zero ?_)
  intro amount member
  obtain ⟨⟨key, value⟩, listed, rfl⟩ := List.mem_map.mp member
  exact none key value (ExtTreeMap.mem_toList_iff_getElem?_eq_some.mp listed)

end Library.TreeMap

import Mathlib.Data.Finset.Basic
import Mathlib.Data.List.AList

/-! Maps with one value a key, and the operations of `std::map` that Mathlib's `AList` lacks. -/

set_option autoImplicit false

namespace Library

variable {K V : Type} [DecidableEq K]

abbrev Table (K V : Type) := AList (fun _ : K => V)

namespace Table

theorem lookup_insert (table : Table K V) (key other : K) (value : V) :
    (table.insert key value).lookup other = if other = key then some value else table.lookup other := by
  by_cases same : other = key
  · rw [if_pos same, same, AList.lookup_insert]
  · rw [if_neg same, AList.lookup_insert_ne same]

theorem lookup_erase (table : Table K V) (key other : K) :
    (table.erase key).lookup other = if other = key then none else table.lookup other := by
  by_cases same : other = key
  · rw [if_pos same, same, AList.lookup_erase]
  · rw [if_neg same, AList.lookup_erase_ne same]

theorem erase_insert {table : Table K V} {key : K} (absent : key ∉ table) (value : V) :
    (table.insert key value).erase key = table := by
  apply AList.ext
  have first : (table.insert key value).entries = ⟨key, value⟩ :: table.entries :=
    AList.entries_insert_of_notMem absent
  exact (congrArg (List.kerase key) first).trans (List.kerase_cons_eq rfl)

theorem mem_of_lookup {table : Table K V} {key : K} {value : V} (found : table.lookup key = some value) :
    key ∈ table := by
  rw [← AList.lookup_isSome, found]
  rfl

theorem exists_lookup {table : Table K V} {key : K} (member : key ∈ table) :
    ∃ value, table.lookup key = some value :=
  Option.isSome_iff_exists.mp (AList.lookup_isSome.mpr member)

theorem entries_perm_of_lookup {table : Table K V} {key : K} {value : V} (found : table.lookup key = some value) :
    table.entries.Perm (⟨key, value⟩ :: (table.erase key).entries) := by
  have member : key ∈ table.entries.keys := mem_of_lookup found
  obtain ⟨stored, front, back, absent, same, erased⟩ := List.exists_of_kerase member
  have unique : stored = value := by
    have present : ⟨key, stored⟩ ∈ table.entries := same ▸ List.mem_append_right _ List.mem_cons_self
    have looked := AList.mem_lookup_iff.mpr present
    rw [found] at looked
    exact (Option.some.inj looked).symm
  subst unique
  rw [show (table.erase key).entries = front ++ back from erased, same]
  exact List.perm_middle

theorem entries_erase_of_none {table : Table K V} {key : K} (absent : table.lookup key = none) :
    (table.erase key).entries = table.entries :=
  List.kerase_of_notMem_keys (AList.lookup_eq_none.mp absent)

/-- A present key keeps its old value. -/
def emplace (table : Table K V) (key : K) (value : V) : Table K V :=
  if key ∈ table then table else table.insert key value

theorem emplace_of_not_mem {table : Table K V} {key : K} (absent : key ∉ table) (value : V) :
    table.emplace key value = table.insert key value :=
  if_neg absent

/-- A value is changed where it is stored; nothing happens to a key that is not there. -/
def modify (table : Table K V) (key : K) (change : V → V) : Table K V :=
  match table.lookup key with
  | some value => table.insert key (change value)
  | none => table

theorem lookup_modify (table : Table K V) (key other : K) (change : V → V) :
    (table.modify key change).lookup other =
      if other = key then (table.lookup key).map change else table.lookup other := by
  rw [modify]
  cases found : table.lookup key with
  | some value => rw [lookup_insert, Option.map_some]
  | none =>
      by_cases same : other = key
      · rw [if_pos same, same, found, Option.map_none]
      · rw [if_neg same]

@[simp] theorem mem_modify {table : Table K V} {key other : K} {change : V → V} :
    other ∈ table.modify key change ↔ other ∈ table := by
  rw [← AList.lookup_isSome, ← AList.lookup_isSome, lookup_modify]
  by_cases same : other = key
  · rw [if_pos same, same, Option.isSome_map]
  · rw [if_neg same]

def keySet (table : Table K V) : Finset K := table.keys.toFinset

@[simp] theorem mem_keySet {table : Table K V} {key : K} : key ∈ table.keySet ↔ key ∈ table := by
  rw [keySet, List.mem_toFinset, AList.mem_keys]

theorem keySet_erase (table : Table K V) (key : K) : keySet (table.erase key) = table.keySet.erase key := by
  ext other
  rw [mem_keySet, AList.mem_erase, Finset.mem_erase, mem_keySet]

theorem keySet_emplace (table : Table K V) (key : K) (value : V) :
    (table.emplace key value).keySet = insert key table.keySet := by
  ext other
  rw [mem_keySet, Finset.mem_insert, mem_keySet, emplace]
  split
  · rename_i present
    exact (or_iff_right_of_imp fun same => same ▸ present).symm
  · exact AList.mem_insert _

theorem keySet_modify (table : Table K V) (key : K) (change : V → V) :
    (table.modify key change).keySet = table.keySet := by
  ext other
  rw [mem_keySet, mem_modify, mem_keySet]

end Table

end Library

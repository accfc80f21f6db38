/-
**Items folded into a table by their keys.**

Each item changes the entry under its own key. `lookup_fold` says that the entry under a key is the
fold of the items of that key alone, `entry_replaced` that it is the last one where an item replaces the
entry, and `mem_fold` that the keys of the table are those of the items.
-/

import Mathlib.Data.List.AList
import Mathlib.Data.List.Induction

namespace KeyedFold

variable {ι κ υ : Type} [DecidableEq κ] (key : ι → κ) (update : Option υ → ι → υ)

/-- An item changes the entry under its key. -/
def step (table : AList fun _ : κ => υ) (item : ι) : AList fun _ : κ => υ :=
  table.insert (key item) (update (table.lookup (key item)) item)

/-- All items, one after the other. -/
def fold (table : AList fun _ : κ => υ) (items : List ι) : AList fun _ : κ => υ :=
  items.foldl (step key update) table

/-- The values of a table, in the order of its entries. -/
def values (table : AList fun _ : κ => υ) : List υ := table.entries.map Sigma.snd

/-- What the items of one key make of its entry. -/
def entry (found : Option υ) (items : List ι) : Option υ :=
  items.foldl (fun found item => some (update found item)) found

variable {key update}

theorem fold_cons (table : AList fun _ : κ => υ) (item : ι) (items : List ι) :
    fold key update table (item :: items) = fold key update (step key update table item) items := rfl

theorem fold_append (table : AList fun _ : κ => υ) (first second : List ι) :
    fold key update table (first ++ second) = fold key update (fold key update table first) second :=
  List.foldl_append

theorem entry_concat (found : Option υ) (items : List ι) (item : ι) :
    entry update found (items ++ [item]) = some (update (entry update found items) item) :=
  List.foldl_concat _ _ _ _

/-- Where an item replaces the entry, the entry is the last item. -/
theorem entry_replaced (items : List ι) : entry (fun _ item => item) none items = items.getLast? := by
  induction items using List.reverseRecOn with
  | nil => rfl
  | append_singleton items item ih => rw [entry_concat, List.getLast?_concat]

/-- **The entry under a key** depends on the items of that key only. -/
theorem lookup_fold (k : κ) (items : List ι) (table : AList fun _ : κ => υ) :
    (fold key update table items).lookup k =
      entry update (table.lookup k) (items.filter fun item => key item = k) := by
  induction items generalizing table with
  | nil => rfl
  | cons item items ih =>
    rw [fold_cons, ih]
    by_cases same : key item = k
    · rw [step, same, AList.lookup_insert, List.filter_cons_of_pos (by simpa using same)]
      rfl
    · rw [step, AList.lookup_insert_ne (Ne.symm same),
        List.filter_cons_of_neg (by simpa using same)]

/-- **The keys of the table** are those of the items. -/
theorem mem_fold (k : κ) (items : List ι) (table : AList fun _ : κ => υ) :
    k ∈ fold key update table items ↔ k ∈ table ∨ ∃ item ∈ items, key item = k := by
  induction items generalizing table with
  | nil => simp [fold]
  | cons item items ih =>
    rw [fold_cons, ih, step, AList.mem_insert]
    simp only [List.mem_cons, exists_eq_or_imp, eq_comm (a := k)]
    tauto

section Values

variable {table : AList fun _ : κ => υ} {name : υ → κ}

theorem mem_values {value : υ} : value ∈ values table ↔ ∃ k, table.lookup k = some value := by
  rw [values, List.mem_map]
  constructor
  · intro found
    obtain ⟨⟨k, _⟩, member, rfl⟩ := found
    exact ⟨k, AList.mem_lookup_iff.mpr member⟩
  · intro found
    obtain ⟨k, isValue⟩ := found
    exact ⟨⟨k, value⟩, AList.mem_lookup_iff.mp isValue, rfl⟩

/-- Where every value says its own key, the values say the keys. -/
theorem map_values (named : ∀ k value, table.lookup k = some value → name value = k) :
    (values table).map name = table.keys := by
  rw [values, List.map_map]
  refine List.map_congr_left fun item member => ?_
  exact named item.1 item.2 (AList.mem_lookup_iff.mpr member)

end Values

end KeyedFold

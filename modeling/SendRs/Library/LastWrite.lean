/-
**Cells that hold what was last written to them.**

`Cells` is a store with one cell for each key: a write to a cell of the store is read back and seen nowhere
else, and a write to a key without a cell does nothing. `read_run` says what is read after any writes: what
was last written to this cell, or what it held before if nothing was.
-/

import Mathlib.Data.List.Induction

namespace LastWrite

variable {σ κ υ : Type}

/-- A store of cells. -/
structure Cells (σ κ υ : Type) where
  read : σ → κ → υ
  write : σ → κ → υ → σ
  /-- The store has a cell for the key. -/
  has : σ → κ → Prop
  read_same : ∀ s k v, has s k → read (write s k v) k = v
  read_other : ∀ s k other v, k ≠ other → read (write s k v) other = read s other
  write_outside : ∀ s k v, ¬ has s k → write s k v = s
  has_write : ∀ s k other v, has (write s k v) other ↔ has s other

/-- What was last written to a key. -/
def lastTo [DecidableEq κ] (k : κ) (writes : List (κ × υ)) : Option υ :=
  ((writes.filter fun write => write.1 = k).getLast?).map Prod.snd

theorem lastTo_concat [DecidableEq κ] (k : κ) (writes : List (κ × υ)) (write : κ × υ) :
    lastTo k (writes ++ [write]) = if write.1 = k then some write.2 else lastTo k writes := by
  unfold lastTo
  by_cases same : write.1 = k
  · simp [same]
  · simp [same]

namespace Cells

variable (cells : Cells σ κ υ)

/-- All writes, one after the other. -/
def run (s : σ) (writes : List (κ × υ)) : σ :=
  writes.foldl (fun s write => cells.write s write.1 write.2) s

theorem run_concat (s : σ) (writes : List (κ × υ)) (write : κ × υ) :
    cells.run s (writes ++ [write]) = cells.write (cells.run s writes) write.1 write.2 := by
  rw [run, List.foldl_append]
  rfl

/-- No write adds or removes a cell. -/
theorem has_run (s : σ) (writes : List (κ × υ)) (k : κ) :
    cells.has (cells.run s writes) k ↔ cells.has s k := by
  induction writes using List.reverseRecOn with
  | nil => exact Iff.rfl
  | append_singleton writes write ih => rw [run_concat, has_write, ih]

/-- **What is read after some writes** is what was last written there. -/
theorem read_run [DecidableEq κ] (s : σ) (writes : List (κ × υ)) {k : κ}
    (inside : cells.has s k) :
    cells.read (cells.run s writes) k = (lastTo k writes).getD (cells.read s k) := by
  induction writes using List.reverseRecOn with
  | nil => rfl
  | append_singleton writes write ih =>
    rw [run_concat, lastTo_concat]
    by_cases same : write.1 = k
    · subst same
      rw [if_pos rfl, Option.getD_some]
      exact cells.read_same _ _ _ ((cells.has_run s writes write.1).mpr inside)
    · rw [if_neg same, cells.read_other _ _ _ _ same, ih]

end Cells

end LastWrite

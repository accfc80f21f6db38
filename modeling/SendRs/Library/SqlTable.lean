/-
**A table with automatic row ids.**

`INSERT` into a table with an `INTEGER PRIMARY KEY AUTOINCREMENT` gives the row an id above all ids that
were ever given, and fails when the largest one has been given. A statement that fails leaves the rows as
they are, and may use up ids. `latest` is a `SELECT` with `ORDER BY rank DESC, id DESC LIMIT limit`.

`latest_eq`: where the ranks never fall in the order of the inserts, these are the rows that were put in
last, the last one first.
-/

import Mathlib.Algebra.Ring.Int.Defs
import Mathlib.Data.List.Nodup

namespace SqlTable

/-- The largest row id. -/
def maxRowid : Int := 2 ^ 63 - 1

structure Row (α : Type) where
  rowid : Int
  values : α
deriving DecidableEq

/-- The rows, in the order they were put in, and the largest id that was given. -/
structure Table (α : Type) where
  rows : List (Row α)
  sequence : Int
  ascending : rows.Pairwise fun first second => first.rowid < second.rowid
  given : ∀ row ∈ rows, 1 ≤ row.rowid ∧ row.rowid ≤ sequence
  fits : 0 ≤ sequence ∧ sequence ≤ maxRowid

variable {α : Type}

/-- `LIMIT`; there is none if it is negative. -/
def limitTo (limit : Int) (rows : List (Row α)) : List (Row α) :=
  if limit < 0 then rows else rows.take limit.toNat

/-- The order `rank DESC, id DESC`. -/
def latestFirst (rank : α → Int) (first second : Row α) : Bool :=
  decide (rank second.values < rank first.values ∨
    (rank first.values = rank second.values ∧ second.rowid ≤ first.rowid))

namespace Table

def empty : Table α := ⟨[], 0, List.Pairwise.nil, nofun, by decide⟩

/-- `INSERT`: the id of the row and the table with it. -/
def insert (table : Table α) (values : α) : Option (Int × Table α) :=
  if room : table.sequence < maxRowid then
    some (table.sequence + 1, {
      rows := table.rows ++ [⟨table.sequence + 1, values⟩]
      sequence := table.sequence + 1
      ascending := by
        refine List.pairwise_append.mpr ⟨table.ascending, List.pairwise_singleton _ _, ?_⟩
        intro row member other isNew
        have below := (table.given row member).2
        rw [List.mem_singleton.mp isNew]
        show row.rowid < table.sequence + 1
        omega
      given := by
        have fits := table.fits
        intro row member
        rcases List.mem_append.mp member with old | isNew
        · have bounds := table.given row old
          omega
        · rw [List.mem_singleton.mp isNew]
          show 1 ≤ table.sequence + 1 ∧ table.sequence + 1 ≤ table.sequence + 1
          omega
      fits := by
        have fits := table.fits
        omega })
  else none

/-- What a failing statement may do: use up some ids. -/
def skip (table : Table α) (count : Nat) : Table α where
  rows := table.rows
  sequence := min (table.sequence + count) maxRowid
  ascending := table.ascending
  given := by
    have fits := table.fits
    intro row member
    have bounds := table.given row member
    omega
  fits := by
    have fits := table.fits
    omega

/-- `SELECT … WHERE keep ORDER BY rank DESC, id DESC LIMIT limit`. -/
def latest (table : Table α) (keep : α → Bool) (rank : α → Int) (limit : Int) : List (Row α) :=
  limitTo limit ((table.rows.filter fun row => keep row.values).mergeSort (latestFirst rank))

/-- **What is inserted** is the last row, under the id that is returned. -/
theorem rows_insert {table table' : Table α} {values : α} {id : Int}
    (inserted : table.insert values = some (id, table')) :
    table'.rows = table.rows ++ [⟨id, values⟩] := by
  unfold insert at inserted
  split at inserted
  · obtain ⟨rfl, rfl⟩ := Prod.mk.inj (Option.some.inj inserted)
    rfl
  · cases inserted

/-- There are no more rows than ids. -/
theorem length_le (table : Table α) : (table.rows.length : Int) ≤ maxRowid := by
  -- the ids ascend from one, so the row at an index has an id above it
  have above : ∀ rows : List (Row α), rows.Pairwise (fun first second => first.rowid < second.rowid) →
      ∀ low high, (∀ row ∈ rows, low < row.rowid ∧ row.rowid ≤ high) → low ≤ high →
        low + rows.length ≤ high := by
    intro rows
    induction rows with
    | nil =>
      intro _ low high _ start
      simpa using start
    | cons row rows ih =>
      intro ascending low high bounds _
      obtain ⟨first, rest⟩ := List.pairwise_cons.mp ascending
      obtain ⟨lower, upper⟩ := bounds row List.mem_cons_self
      have tail := ih rest row.rowid high (fun other member =>
        ⟨first other member, (bounds other (List.mem_cons_of_mem _ member)).2⟩) upper
      rw [List.length_cons]
      push_cast
      omega
  have fits := table.fits
  have count := above table.rows table.ascending 0 table.sequence (fun row member => by
    have bounds := table.given row member
    omega) fits.1
  omega

section Latest

variable {rank : α → Int} {rows : List (Row α)}

theorem latestFirst_trans (first second third : Row α) (left : latestFirst rank first second = true)
    (right : latestFirst rank second third = true) : latestFirst rank first third = true := by
  unfold latestFirst at *
  simp only [decide_eq_true_eq] at *
  omega

theorem latestFirst_total (first second : Row α) :
    (latestFirst rank first second || latestFirst rank second first) = true := by
  unfold latestFirst
  simp only [Bool.or_eq_true, decide_eq_true_eq]
  omega

/-- Rows with ascending ids and ranks that never fall are sorted by turning them around. -/
theorem mergeSort_latestFirst
    (ascending : rows.Pairwise fun first second => first.rowid < second.rowid)
    (ranked : rows.Pairwise fun first second => rank first.values ≤ rank second.values) :
    rows.mergeSort (latestFirst rank) = rows.reverse := by
  have both := ascending.and ranked
  refine List.Perm.eq_of_pairwise ?_
    (List.pairwise_mergeSort latestFirst_trans latestFirst_total rows) ?_
    ((List.mergeSort_perm rows _).trans rows.reverse_perm.symm)
  · intro first second isFirst isSecond before after
    have member := List.mem_mergeSort.mp isFirst
    have other := List.mem_reverse.mp isSecond
    -- two rows that come before each other have one id
    have same : first.rowid = second.rowid := by
      unfold latestFirst at before after
      simp only [decide_eq_true_eq] at before after
      omega
    exact List.inj_on_of_nodup_map (f := Row.rowid)
      (List.pairwise_map.mpr (ascending.imp fun less => Int.ne_of_lt less)) member other same
  · refine List.pairwise_reverse.mpr (both.imp fun ⟨below, ranks⟩ => ?_)
    unfold latestFirst
    simp only [decide_eq_true_eq]
    omega

/-- **The latest rows.** -/
theorem latest_eq (table : Table α) (keep : α → Bool) (limit : Int)
    (ranked : table.rows.Pairwise fun first second => rank first.values ≤ rank second.values) :
    table.latest keep rank limit =
      limitTo limit (table.rows.filter fun row => keep row.values).reverse := by
  rw [latest, mergeSort_latestFirst (table.ascending.filter _) (ranked.filter _)]

end Latest

end Table

end SqlTable

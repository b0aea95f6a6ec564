import Mathlib.Data.List.Basic
import Mathlib.Tactic.SplitIfs

/-!
# Buffers filled row by row

A fixed number of append-only buffers.  Each row appends its entries in order,
entry `i` to buffer `i`, so a row longer than the number of buffers fails.  At
the end buffer `i` has collected column `i` of the rows.
-/

namespace Buffers

variable {A B : Type*}

/-- `buffers(i) += value`; there must be a buffer `i`. -/
def push (buffers : List (List A)) (i : ℕ) (value : A) : Option (List (List A)) :=
  buffers[i]?.map fun buffer => buffers.set i (buffer ++ [value])

/-- Append the entries of a row, the first one to buffer `start`. -/
def pushRow (buffers : List (List A)) (row : List A) (start : ℕ) :
    Option (List (List A)) :=
  (row.zipIdx start).foldlM (fun buffers entry => push buffers entry.2 entry.1) buffers

/-- Fill `n` empty buffers. -/
def fill (n : ℕ) (rows : List (List A)) : Option (List (List A)) :=
  rows.foldlM (fun buffers row => pushRow buffers row 0) (List.replicate n [])

/-- The entries that the rows have at position `i`. -/
def column (rows : List (List A)) (i : ℕ) : List A :=
  rows.filterMap fun row => row[i]?

theorem mapIdx_self (buffers : List B) : (buffers.mapIdx fun _ buffer => buffer) = buffers := by
  apply List.mapIdx_eq_iff.mpr
  intro i
  exact Option.map_id'.symm

theorem push_append (front : List (List A)) (buffer : List A) (back : List (List A))
    (value : A) :
    push (front ++ buffer :: back) front.length value =
      some ((front ++ [buffer ++ [value]]) ++ back) := by
  simp [push]

theorem push_of_length_le {buffers : List (List A)} {i : ℕ} (hi : buffers.length ≤ i)
    (value : A) : push buffers i value = none := by
  simp [push, hi]

theorem pushRow_cons (buffers : List (List A)) (value : A) (row : List A) (start : ℕ) :
    pushRow buffers (value :: row) start =
      (push buffers start value).bind fun buffers => pushRow buffers row (start + 1) := rfl

/-- From buffer `front.length` on, each entry lands in a buffer of its own. -/
theorem pushRow_append (row : List A) (front back : List (List A)) :
    pushRow (front ++ back) row front.length =
      if row.length ≤ back.length then
        some (front ++ back.mapIdx fun i buffer => buffer ++ row[i]?.toList)
      else none := by
  induction row generalizing front back with
  | nil => simp [pushRow, mapIdx_self]
  | cons value row ih =>
      cases back with
      | nil => simp [pushRow_cons, push_of_length_le]
      | cons buffer back =>
          have hrest := ih (front ++ [buffer ++ [value]]) back
          rw [List.length_append, List.length_singleton] at hrest
          rw [pushRow_cons, push_append, Option.bind_some, hrest]
          simp [List.mapIdx_cons]

theorem pushRow_zero (row : List A) (buffers : List (List A)) :
    pushRow buffers row 0 =
      if row.length ≤ buffers.length then
        some (buffers.mapIdx fun i buffer => buffer ++ row[i]?.toList)
      else none :=
  pushRow_append row [] buffers

theorem column_cons (row : List A) (rows : List (List A)) (i : ℕ) :
    column (row :: rows) i = row[i]?.toList ++ column rows i := by
  cases hentry : row[i]? <;> simp [column, hentry]

/-- The buffers after all rows. -/
theorem foldlM_pushRow (rows : List (List A)) (buffers : List (List A)) :
    rows.foldlM (fun buffers row => pushRow buffers row 0) buffers =
      if ∀ row ∈ rows, row.length ≤ buffers.length then
        some (buffers.mapIdx fun i buffer => buffer ++ column rows i)
      else none := by
  induction rows generalizing buffers with
  | nil => simp [column, mapIdx_self]
  | cons row rows ih =>
      rw [List.foldlM_cons, pushRow_zero]
      by_cases hrow : row.length ≤ buffers.length
      · rw [if_pos hrow]
        simp only [Option.bind_eq_bind, Option.bind_some, ih, List.length_mapIdx,
          List.mapIdx_mapIdx, List.forall_mem_cons, hrow, true_and]
        simp [column_cons, Function.comp_def]
      · simp [hrow]

/-- Buffer `i` collects column `i`, and a row that is too long is an error. -/
theorem fill_eq (n : ℕ) (rows : List (List A)) :
    fill n rows =
      if ∀ row ∈ rows, row.length ≤ n then some ((List.range n).map (column rows)) else none := by
  have hcolumns : ((List.replicate n []).mapIdx fun i buffer => buffer ++ column rows i) =
      (List.range n).map (column rows) := by
    apply List.ext_getElem (by simp)
    intro i _ _
    simp
  rw [fill, foldlM_pushRow, List.length_replicate, hcolumns]

end Buffers

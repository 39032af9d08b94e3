import FeedStore.Error

/-!
# Tables

A table is its rows in the order in which they were added, together with the last identifier it has
given out. Identifiers count up from one and are never given out again, whatever is erased.
-/

namespace FeedStore

/-- Rows in ascending order of their identifiers, and the last identifier given out. -/
structure Table (α : Type) where
  rows : List α := []
  lastId : Id := 0
  deriving Repr, DecidableEq

namespace Table

variable {α : Type}

/-- Adds the row that `make` builds for the next identifier, and returns it. -/
def add (t : Table α) (make : Id → α) : α × Table α :=
  let row := make (t.lastId + 1)
  (row, ⟨t.rows ++ [row], t.lastId + 1⟩)

/-- Uses up an identifier without adding a row. -/
def skipId (t : Table α) : Table α := { t with lastId := t.lastId + 1 }

/-- Changes every row that satisfies `p` by `f`. -/
def modify (t : Table α) (p : α → Bool) (f : α → α) : Table α :=
  { t with rows := t.rows.map fun r => if p r then f r else r }

/-- Takes away every row that satisfies `p`. -/
def erase (t : Table α) (p : α → Bool) : Table α :=
  { t with rows := t.rows.filter fun r => !p r }

def count (t : Table α) (p : α → Bool) : Nat := t.rows.countP p

def holds (t : Table α) (p : α → Bool) : Bool := t.rows.any p

def find? (t : Table α) (p : α → Bool) : Option α := t.rows.find? p

def select (t : Table α) (p : α → Bool) : List α := t.rows.filter p

/-! ## The rows after each operation -/

@[simp] theorem rows_add (t : Table α) (make : Id → α) :
    (t.add make).2.rows = t.rows ++ [make (t.lastId + 1)] := rfl

@[simp] theorem lastId_add (t : Table α) (make : Id → α) :
    (t.add make).2.lastId = t.lastId + 1 := rfl

@[simp] theorem fst_add (t : Table α) (make : Id → α) : (t.add make).1 = make (t.lastId + 1) := rfl

@[simp] theorem rows_skipId (t : Table α) : t.skipId.rows = t.rows := rfl

@[simp] theorem lastId_skipId (t : Table α) : t.skipId.lastId = t.lastId + 1 := rfl

@[simp] theorem rows_modify (t : Table α) (p : α → Bool) (f : α → α) :
    (t.modify p f).rows = t.rows.map fun r => if p r then f r else r := rfl

@[simp] theorem lastId_modify (t : Table α) (p : α → Bool) (f : α → α) :
    (t.modify p f).lastId = t.lastId := rfl

@[simp] theorem rows_erase (t : Table α) (p : α → Bool) :
    (t.erase p).rows = t.rows.filter fun r => !p r := rfl

@[simp] theorem lastId_erase (t : Table α) (p : α → Bool) : (t.erase p).lastId = t.lastId := rfl

theorem mem_rows_erase {t : Table α} {p : α → Bool} {r : α} :
    r ∈ (t.erase p).rows ↔ r ∈ t.rows ∧ p r = false := by
  simp

/-- A table in which no row satisfies `p` is left as it is. -/
theorem modify_of_count_eq_zero {t : Table α} {p : α → Bool} (f : α → α) (h : t.count p = 0) :
    t.modify p f = t := by
  have hp : ∀ r ∈ t.rows, p r = false := by
    simpa [count, List.countP_eq_zero] using h
  have : t.rows.map (fun r => if p r then f r else r) = t.rows := by
    conv => rhs; rw [← List.map_id t.rows]
    exact List.map_congr_left fun r hr => by simp [hp r hr]
  simp [modify, this]

end Table

end FeedStore

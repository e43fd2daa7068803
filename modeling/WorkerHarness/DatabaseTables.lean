import WorkerHarness.Models
import WorkerHarness.SharedTransactions
import WorkerHarness.SortedLists
import Mathlib.Data.Prod.Lex

/-!
# Statements on the tables of the database

The SQL texts of `db.py` are instances of a few statements: update the rows that a
condition selects, insert a row under its primary key, delete the selected rows. Column
conditions become Boolean functions of a row and of the tables that the statement sees.
-/

namespace WorkerHarness

open Coroutines SharedTransactions

/-- The three `asyncio.Lock`s of `Database`. -/
inductive DbLock where
  | queue | piBridge | workerJobReport
  deriving DecidableEq, Repr

inductive DbError where
  | keyError (key : String)
  | valueError (message : String)
  | permissionError (message : String)
  | runtimeError (message : String)
  | assertionError
  | integrityError
  deriving DecidableEq, Repr

abbrev DbM (α : Type) := Prog (Sql Tables) DbLock DbError α

namespace Database

def query {β : Type} (q : Tables → β) : DbM β := Prog.call (.query q)

def execute (s : Statement Tables) : DbM ℕ := Prog.call (.execute s)

def commit : DbM Unit := Prog.call .commit

def rollback : DbM Unit := Prog.call .rollback

/-- One table as a part of the database. -/
structure Table (R : Type) where
  rows : Tables → List R
  put : Tables → List R → Tables
  put_rows : ∀ d, put d (rows d) = d

def workersTable : Table Worker := ⟨Tables.workers, fun d rs => { d with workers := rs }, fun _ => rfl⟩

def jobsTable : Table Job := ⟨Tables.jobs, fun d rs => { d with jobs := rs }, fun _ => rfl⟩

def sessionsTable : Table PiSession := ⟨Tables.sessions, fun d rs => { d with sessions := rs }, fun _ => rfl⟩

def commandsTable : Table PiSessionCommand :=
  ⟨Tables.commands, fun d rs => { d with commands := rs }, fun _ => rfl⟩

def failuresTable : Table Failure := ⟨Tables.failures, fun d rs => { d with failures := rs }, fun _ => rfl⟩

theorem map_eq_self {α : Type} {f : α → α} {l : List α} (h : ∀ a ∈ l, f a = a) : l.map f = l :=
  (List.map_congr_left h).trans (List.map_id' l)

variable {R : Type}

/-- The rows with `f` applied where `p` holds. -/
def updateRows (p : R → Bool) (f : R → R) (rs : List R) : List R := rs.map fun r => if p r then f r else r

theorem updateRows_of_none {p : R → Bool} {f : R → R} {rs : List R} (h : ∀ r ∈ rs, p r = false) :
    updateRows p f rs = rs :=
  map_eq_self fun r hr => by simp [h r hr]

/-- `UPDATE table SET f WHERE p`. -/
def update (T : Table R) (p : Tables → R → Bool) (f : R → R) : Statement Tables where
  apply d := T.put d (updateRows (p d) f (T.rows d))
  rowcount d := ((T.rows d).filter (p d)).length
  unchanged d h := by
    have hp : ∀ r ∈ T.rows d, p d r = false := by
      simpa [List.length_eq_zero_iff, List.filter_eq_nil_iff] using h
    rw [updateRows_of_none hp, T.put_rows]

/-- `INSERT INTO table`; no row when the primary key is taken. -/
def insertInto (T : Table R) (key : R → String) (row : R) : Statement Tables where
  apply d := if (T.rows d).any (fun r => key r = key row) then d else T.put d (T.rows d ++ [row])
  rowcount d := if (T.rows d).any (fun r => key r = key row) then 0 else 1
  unchanged d h := by
    split at h
    · next hany => rw [if_pos hany]
    · cases h

/-- `INSERT INTO table` without a primary key. -/
def appendTo (T : Table R) (row : R) : Statement Tables where
  apply d := T.put d (T.rows d ++ [row])
  rowcount _ := 1
  unchanged _ h := by cases h

/-- `DELETE FROM table WHERE p`. -/
def deleteFrom (T : Table R) (p : R → Bool) : Statement Tables where
  apply d := T.put d ((T.rows d).filter fun r => !p r)
  rowcount d := ((T.rows d).filter p).length
  unchanged d h := by
    have hp : ∀ r ∈ T.rows d, p r = false := by
      simpa [List.length_eq_zero_iff, List.filter_eq_nil_iff] using h
    rw [List.filter_eq_self.mpr fun r hr => by simp [hp r hr], T.put_rows]

/-- Execute a plain `INSERT`; a taken primary key raises. -/
def insertRow (s : Statement Tables) : DbM Unit := do
  let rowcount ← execute s
  if rowcount = 0 then .raise .integrityError else pure ()

end Database

end WorkerHarness

import Mathlib.Data.Int.Notation
import Mathlib.Data.List.Nodup
import Mathlib.Data.Rat.Init
import Mathlib.Logic.Function.Basic
import Mathlib.Tactic.Push

/-!
# Tables of an SQL database

A table has named columns, rows in the order of their rowids, indexes and triggers. `ALTER TABLE`,
`CREATE INDEX`, `UPDATE` and `DELETE` are functions on tables that can fail. An `UPDATE` first
collects the rows its condition selects, and then changes one after the other, so that what it
computes for a row sees the rows that are already changed; `update_eq_assign` says when this
makes no difference.
-/

namespace WorkerHarness.SqlTables

inductive Value where
  | null
  | integer (n : ℤ)
  | real (q : ℚ)
  | text (s : String)
  deriving DecidableEq

/-- `a = b`, which is not true of `NULL`. -/
def sqlEq (a b : Value) : Bool := decide (a ≠ .null ∧ a = b)

theorem eq_of_sqlEq {a b : Value} (h : sqlEq a b = true) : a ≠ .null ∧ a = b := of_decide_eq_true h

theorem sqlEq_self {a : Value} (h : a ≠ .null) : sqlEq a a = true := decide_eq_true ⟨h, rfl⟩

/-- `v IN (vs)`. -/
def isIn (v : Value) (vs : List Value) : Bool := decide (v ≠ .null ∧ v ∈ vs)

inductive SqlError where
  | noSuchTable
  | noSuchColumn
  | duplicateColumn
  | uniqueConstraint
  | foreignKeyConstraint
  deriving DecidableEq

structure Row (C : Type) where
  rowid : ℕ
  values : C → Value

structure Index (C : Type) where
  name : String
  columns : List C
  unique : Bool
  deriving DecidableEq

@[ext]
structure Table (C : Type) where
  columns : List C
  rows : List (Row C)
  indexes : List (Index C)
  triggers : List String
  ordered : rows.Pairwise fun r r' => r.rowid < r'.rowid
  indexed : ∀ i ∈ indexes, i.columns ⊆ columns

variable {C : Type}

namespace Table

def create (columns : List C) : Table C :=
  { columns := columns, rows := [], indexes := [], triggers := [],
    ordered := .nil, indexed := fun _ hi => nomatch hi }

theorem ordered_map {rows : List (Row C)} (h : rows.Pairwise fun r r' => r.rowid < r'.rowid)
    (f : Row C → C → Value) :
    (rows.map fun r => { r with values := f r }).Pairwise fun r r' => r.rowid < r'.rowid :=
  h.map _ fun _ _ hlt => hlt

def mapRows (t : Table C) (f : Row C → C → Value) : Table C :=
  { t with rows := t.rows.map fun r => { r with values := f r }, ordered := ordered_map t.ordered f }

theorem rowid_inj (t : Table C) {r r' : Row C} (hr : r ∈ t.rows) (hr' : r' ∈ t.rows) (h : r.rowid = r'.rowid) :
    r = r' := by
  have hnodup : (t.rows.map (·.rowid)).Nodup := t.ordered.map _ fun _ _ hlt => Nat.ne_of_lt hlt
  exact List.inj_on_of_nodup_map hnodup hr hr' h

theorem mapRows_congr {t : Table C} {f g : Row C → C → Value} (h : ∀ r ∈ t.rows, f r = g r) :
    t.mapRows f = t.mapRows g := by
  have hrows : t.rows.map (fun r => { r with values := f r }) = t.rows.map fun r => { r with values := g r } :=
    List.map_congr_left fun r hr => by rw [h r hr]
  exact Table.ext rfl hrows rfl rfl

theorem mapRows_self {t : Table C} {f : Row C → C → Value} (h : ∀ r ∈ t.rows, f r = r.values) :
    t.mapRows f = t := by
  have hrows : t.rows.map (fun r => { r with values := f r }) = t.rows :=
    (List.map_congr_left fun r hr => by rw [h r hr]).trans (List.map_id' t.rows)
  exact Table.ext rfl hrows rfl rfl

theorem mapRows_mapRows (t : Table C) (f g : Row C → C → Value) :
    (t.mapRows f).mapRows g = t.mapRows fun r => g { r with values := f r } := by
  have hrows : (t.rows.map fun r => { r with values := f r }).map (fun r => { r with values := g r }) =
      t.rows.map fun r => { r with values := g { r with values := f r } } := List.map_map
  exact Table.ext rfl hrows rfl rfl

/-- `DELETE FROM t WHERE p`. -/
def deleteWhere (p : Row C → Bool) (t : Table C) : Table C :=
  { t with rows := t.rows.filter fun r => !p r, ordered := t.ordered.filter _ }

variable [DecidableEq C]

/-- `ALTER TABLE t ADD COLUMN c DEFAULT v`. -/
def addColumn (c : C) (v : Value) (t : Table C) : Except SqlError (Table C) :=
  if c ∈ t.columns then .error .duplicateColumn
  else .ok
    { t.mapRows fun r => Function.update r.values c v with
      columns := t.columns ++ [c],
      indexed := fun i hi => List.Subset.trans (t.indexed i hi) (List.subset_append_left _ _) }

def mentions (cs : List C) (t : Table C) : Except SqlError Unit :=
  if ∀ c ∈ cs, c ∈ t.columns then .ok () else .error .noSuchColumn

/-- Both rows have the same key; a key with a `NULL` in it is like no other. -/
def sameKey (cs : List C) (values values' : C → Value) : Bool := cs.all fun c => sqlEq (values c) (values' c)

/-- `CREATE [UNIQUE] INDEX IF NOT EXISTS`. -/
def createIndex (i : Index C) (t : Table C) : Except SqlError (Table C) :=
  if ∃ j ∈ t.indexes, j.name = i.name then .ok t
  else if hcolumns : i.columns ⊆ t.columns then
    if i.unique = true ∧ ¬t.rows.Pairwise fun r r' => sameKey i.columns r.values r'.values = false then
      .error .uniqueConstraint
    else .ok
      { t with
        indexes := t.indexes ++ [i],
        indexed := fun j hj => (List.mem_append.mp hj).elim (t.indexed j) fun hj =>
          List.mem_singleton.mp hj ▸ hcolumns }
  else .error .noSuchColumn

/-- `CREATE TRIGGER IF NOT EXISTS`. -/
def createTrigger (name : String) (t : Table C) : Table C :=
  if name ∈ t.triggers then t else { t with triggers := t.triggers ++ [name] }

def clash (t : Table C) (r : Row C) (c : C) (v : Value) : Bool :=
  t.indexes.any fun i => i.unique && decide (c ∈ i.columns) && t.rows.any fun r' =>
    decide (r'.rowid ≠ r.rowid) && sameKey i.columns (Function.update r.values c v) r'.values

def updateRow (c : C) (e : Table C → Row C → Value) (t : Table C) (r : Row C) : Except SqlError (Table C) :=
  if t.clash r c (e t r) then .error .uniqueConstraint
  else .ok (t.mapRows fun r' => if r'.rowid = r.rowid then Function.update r'.values c (e t r) else r'.values)

/-- `UPDATE t SET c = e WHERE p`. -/
def update (c : C) (e : Table C → Row C → Value) (p : Row C → Bool) (t : Table C) : Except SqlError (Table C) :=
  (t.rows.filter p).foldlM (updateRow c e) t

/-- The selected rows all changed at once. -/
def assign (c : C) (q : Row C → Bool) (f : Row C → Value) (t : Table C) : Table C :=
  t.mapRows fun r => if q r then Function.update r.values c (f r) else r.values

variable {t : Table C} {c : C} {e : Table C → Row C → Value} {p q : Row C → Bool} {f : Row C → Value}

theorem assign_congr (h : ∀ r ∈ t.rows, q r = p r) : t.assign c q f = t.assign c p f :=
  mapRows_congr fun r hr => by rw [h r hr]

theorem assign_none (h : ∀ r ∈ t.rows, q r = false) : t.assign c q f = t :=
  mapRows_self fun r hr => by rw [h r hr, if_neg Bool.false_ne_true]

def among (rs : List (Row C)) (r : Row C) : Bool := decide (r.rowid ∈ rs.map (·.rowid))

omit [DecidableEq C] in
theorem among_iff {rs : List (Row C)} {r : Row C} (hrs : rs ⊆ t.rows) (hr : r ∈ t.rows) : among rs r = true ↔
    r ∈ rs := by
  simp only [among, decide_eq_true_eq, List.mem_map]
  constructor
  · rintro ⟨r', hmem, hid⟩
    exact t.rowid_inj (hrs hmem) hr hid ▸ hmem
  · exact fun hmem => ⟨r, hmem, rfl⟩

/-- The next row is changed after the rows of `rs`. -/
theorem updateRow_assign {rs : List (Row C)} {r : Row C} (hr : r ∈ t.rows)
    (he : e (t.assign c (among rs) f) r = f r) (hclash : (t.assign c (among rs) f).clash r c (f r) = false) :
    updateRow c e (t.assign c (among rs) f) r = .ok (t.assign c (among (rs ++ [r])) f) := by
  simp only [updateRow, he, hclash]
  rw [if_neg Bool.false_ne_true]
  simp only [assign, mapRows_mapRows]
  refine congrArg Except.ok (mapRows_congr fun r' hr' => ?_)
  have hsplit : among (rs ++ [r]) r' = (among rs r' || decide (r'.rowid = r.rowid)) := by
    simp [among]
  rw [hsplit]
  by_cases hid : r'.rowid = r.rowid
  · obtain rfl := t.rowid_inj hr' hr hid
    by_cases hmem : among rs r' <;> simp [hmem]
  · simp [hid]

/-- When no changed row matters to the others, and none has the key of another, an `UPDATE` is one
assignment. -/
theorem update_eq_assign
    (he : ∀ q, (∀ r ∈ t.rows, q r = true → p r = true) → ∀ r ∈ t.rows, p r = true → e (t.assign c q f) r = f r)
    (hclash : ∀ q, (∀ r ∈ t.rows, q r = true → p r = true) → ∀ r ∈ t.rows, p r = true →
      (t.assign c q f).clash r c (f r) = false) : t.update c e p = .ok (t.assign c p f) := by
  have hsub : t.rows.filter p ⊆ t.rows := List.filter_sublist.subset
  have hfold : ∀ rest done, done ++ rest = t.rows.filter p →
      rest.foldlM (updateRow c e) (t.assign c (among done) f) = .ok (t.assign c p f) := by
    intro rest
    induction rest with
    | nil =>
      intro done hdone
      rw [List.append_nil] at hdone
      subst hdone
      refine congrArg Except.ok (assign_congr fun r hr => ?_)
      rw [Bool.eq_iff_iff, among_iff hsub hr, List.mem_filter]
      exact ⟨And.right, fun hp => ⟨hr, hp⟩⟩
    | cons r rest ih =>
      intro done hdone
      have hrest : done ++ [r] ++ rest = t.rows.filter p := by simpa using hdone
      have hdone' : done ⊆ t.rows.filter p := hdone ▸ List.subset_append_left _ _
      have hr : r ∈ t.rows.filter p := hdone ▸ List.mem_append_right _ (List.mem_cons_self ..)
      obtain ⟨hr, hp⟩ := List.mem_filter.mp hr
      have hq : ∀ r ∈ t.rows, among done r = true → p r = true := fun r hr hmem =>
        (List.mem_filter.mp (hdone' ((among_iff (List.Subset.trans hdone' hsub) hr).mp hmem))).2
      rw [List.foldlM_cons, updateRow_assign hr (he _ hq r hr hp) (hclash _ hq r hr hp)]
      exact ih _ hrest
  have hnone : t.assign c (among []) f = t := assign_none fun _ _ => rfl
  rw [update, ← hfold _ [] rfl, hnone]

theorem sqlEq_null_left (v : Value) : sqlEq .null v = false := by
  simp [sqlEq]

/-- Nothing clashes with `NULL`. -/
theorem clash_null (t : Table C) (r : Row C) (c : C) : t.clash r c .null = false := by
  refine List.any_eq_false.mpr fun i _ hclash => ?_
  simp only [Bool.and_eq_true, decide_eq_true_eq, List.any_eq_true] at hclash
  obtain ⟨⟨-, hc⟩, r', -, -, hkey⟩ := hclash
  have hnull := List.all_eq_true.mp hkey c hc
  rw [Function.update_self, sqlEq_null_left] at hnull
  cases hnull

/-- A clash comes from a unique index on the column. -/
theorem clash_eq_false {r : Row C} {v : Value}
    (h : ∀ i ∈ t.indexes, i.unique = true → c ∈ i.columns → ∀ r' ∈ t.rows, r'.rowid ≠ r.rowid →
      sameKey i.columns (Function.update r.values c v) r'.values = false) : t.clash r c v = false := by
  refine List.any_eq_false.mpr fun i hi hclash => ?_
  simp only [Bool.and_eq_true, decide_eq_true_eq, List.any_eq_true] at hclash
  obtain ⟨⟨hunique, hc⟩, r', hr', hne, hkey⟩ := hclash
  rw [h i hi hunique hc r' hr' hne] at hkey
  cases hkey

end Table

end WorkerHarness.SqlTables

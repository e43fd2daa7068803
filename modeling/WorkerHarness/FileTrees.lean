import Mathlib.Data.List.Infix

/-!
# File trees

A tree of files as the entry at each path, and the commands that move, copy and remove parts of it. A
move or copy onto an existing directory goes into that directory.
-/

namespace WorkerHarness.FileTrees

abbrev Path := List String

inductive Entry where
  | file (content : List UInt8)
  | link (target : String)
  | dir
  deriving DecidableEq, Repr

abbrev Tree := Path → Option Entry

def Apart (p q : Path) : Prop := ¬p <+: q ∧ ¬q <+: p

theorem Apart.symm {p q : Path} (h : Apart p q) : Apart q p := ⟨h.2, h.1⟩

theorem apart_cons {a b : String} (h : a ≠ b) (p q : Path) : Apart (a :: p) (b :: q) :=
  ⟨fun hp => h (List.cons_prefix_cons.mp hp).1, fun hp => h (List.cons_prefix_cons.mp hp).1.symm⟩

theorem apart_append {p q : Path} (h : Apart p q) (r r' : Path) : Apart (p ++ r) (q ++ r') := by
  have hstep : ∀ {p q : Path}, Apart p q → ∀ r r', ¬p ++ r <+: q ++ r' := fun h r r' hp => by
    have hp' : _ <+: _ := (List.prefix_append _ r).trans hp
    rcases List.prefix_or_prefix_of_prefix hp' (List.prefix_append _ r') with hpq | hqp
    · exact h.1 hpq
    · exact h.2 hqp
  exact ⟨hstep h r r', hstep h.symm r' r⟩

theorem apart_append_left {p q : Path} (h : Apart p q) (r : Path) : Apart (r ++ p) (r ++ q) :=
  ⟨fun hp => h.1 ((List.prefix_append_right_inj r).mp hp), fun hp => h.2 ((List.prefix_append_right_inj r).mp hp)⟩

namespace Tree

variable {t t' : Tree} {p q : Path}

def under (t : Tree) (p : Path) : Tree := fun q => t (p ++ q)

def Absent (t : Tree) (p : Path) : Prop := ∀ q, t (p ++ q) = none

def graft (t : Tree) (p : Path) (sub : Tree) : Tree := fun q => if p <+: q then sub (q.drop p.length) else t q

def remove (t : Tree) (p : Path) : Tree := t.graft p fun _ => none

def rename (t : Tree) (p q : Path) : Tree := (t.remove p).graft q (t.under p)

def leaf (e : Entry) : Tree := fun q => if q = [] then some e else none

@[simp] theorem under_apply : t.under p q = t (p ++ q) := rfl

theorem entry_of_under {r : Path} (h : t'.under q = t.under r) : t' q = t r := by simpa using congrFun h []

theorem entry_congr (h : t'.under p = t.under p) : t' p = t p := entry_of_under h

theorem absent_iff : t.Absent p ↔ t.under p = fun _ => none := ⟨fun h => funext h, fun h q => congrFun h q⟩

theorem Absent.entry (h : t.Absent p) : t p = none := by simpa using h []

theorem Absent.congr (h : t.Absent p) (heq : t'.under p = t.under p) : t'.Absent p :=
  fun q => (congrFun heq q).trans (h q)

@[simp] theorem under_graft_self (sub : Tree) : (t.graft p sub).under p = sub := by
  funext q
  simp [under, graft]

theorem entry_graft_self (sub : Tree) : t.graft p sub p = sub [] := by simp [graft]

theorem graft_apply_of_not {sub : Tree} (h : ¬p <+: q) : t.graft p sub q = t q := if_neg h

theorem remove_apply_of_not (h : ¬p <+: q) : t.remove p q = t q := if_neg h

theorem under_graft (h : Apart p q) (sub : Tree) : (t.graft p sub).under q = t.under q := by
  funext r
  have hp : ¬p <+: q ++ r := by simpa using (apart_append h [] r).1
  simp [under, graft, hp]

theorem absent_remove : (t.remove p).Absent p := absent_iff.mpr (under_graft_self _)

theorem under_remove (h : Apart p q) : (t.remove p).under q = t.under q := under_graft h _

@[simp] theorem under_rename : (t.rename p q).under q = t.under p := under_graft_self _

theorem absent_rename (h : Apart p q) : (t.rename p q).Absent p :=
  absent_remove.congr (under_graft h.symm _)

theorem under_rename_of_apart {r : Path} (hp : Apart p r) (hq : Apart q r) : (t.rename p q).under r = t.under r :=
  (under_graft hq _).trans (under_remove hp)

end Tree

section Commands

variable (src dst p : Path) (t : Tree)

def landing : Path := if t dst = some .dir then dst ++ [src.getLastD ""] else dst

/-- What is there can be replaced: directories are neither merged nor replaced. -/
def replaceable : Prop := t (landing src dst t) = none ∨ t (landing src dst t) ≠ some .dir ∧ t src ≠ some .dir

instance : Decidable (replaceable src dst t) := by unfold replaceable; infer_instance

/-- `mv src dst` in one file system. -/
def mv : Option Tree :=
  if t src ≠ none ∧ replaceable src dst t then some (t.rename src (landing src dst t)) else none

/-- `cp -a src dst`. -/
def cp : Option Tree :=
  if t src ≠ none ∧ replaceable src dst t then some (t.graft (landing src dst t) (t.under src)) else none

/-- `rm -f p`. -/
def rm : Option Tree := if t p = some .dir then none else some (t.remove p)

/-- `rm -rf p`. -/
def rmTree : Option Tree := some (t.remove p)

/-- `mkdir -p p`. -/
def mkdir : Option Tree :=
  if p.inits.any fun q => decide (q ≠ []) && (match t q with | some (.file _) => true | _ => false) then none
  else some fun q => if q <+: p ∧ q ≠ [] ∧ t q = none then some .dir else t q

end Commands

def write (p : Path) (content : List UInt8) (t : Tree) : Option Tree :=
  if t p = some .dir then none else some (t.graft p (.leaf (.file content)))

variable {src dst p : Path} {t t' : Tree}

/-- Onto nothing, a move is a renaming. -/
theorem mv_absent (hsrc : t src ≠ none) (hdst : t dst = none) : mv src dst t = some (t.rename src dst) := by
  have hland : landing src dst t = dst := if_neg (by simp [hdst])
  rw [mv, if_pos ⟨hsrc, .inl (by rw [hland, hdst])⟩, hland]

theorem cp_absent (hsrc : t src ≠ none) (hdst : t dst = none) :
    cp src dst t = some (t.graft dst (t.under src)) := by
  have hland : landing src dst t = dst := if_neg (by simp [hdst])
  rw [cp, if_pos ⟨hsrc, .inl (by rw [hland, hdst])⟩, hland]

/-- A directory is not moved onto a file or a link. -/
theorem mv_onto (hsrc : t src = some .dir) (hdst : t dst ≠ none) (hdir : t dst ≠ some .dir) :
    mv src dst t = none := by
  have hland : landing src dst t = dst := if_neg hdir
  refine if_neg fun h => ?_
  rcases h.2 with hnone | hfile
  · exact hdst (hland ▸ hnone)
  · exact hfile.2 hsrc

theorem dst_le_landing : dst <+: landing src dst t := by
  unfold landing
  split
  · exact List.prefix_append ..
  · exact List.prefix_rfl

/-- A move changes entries at and below its two paths only. -/
theorem mv_entry (h : mv src dst t = some t') (hsrc : ¬src <+: p) (hdst : ¬dst <+: p) : t' p = t p := by
  unfold mv at h
  split at h
  · cases h
    rw [Tree.rename, Tree.graft_apply_of_not fun hp => hdst (dst_le_landing.trans hp),
      Tree.remove_apply_of_not hsrc]
  · cases h

theorem cp_entry (h : cp src dst t = some t') (hdst : ¬dst <+: p) : t' p = t p := by
  unfold cp at h
  split at h
  · cases h
    exact Tree.graft_apply_of_not fun hp => hdst (dst_le_landing.trans hp)
  · cases h

theorem rm_entry (h : rm src t = some t') (hsrc : ¬src <+: p) : t' p = t p := by
  unfold rm at h
  split at h
  · cases h
  · cases h
    exact Tree.graft_apply_of_not hsrc

theorem rmTree_entry (h : rmTree src t = some t') (hsrc : ¬src <+: p) : t' p = t p := by
  cases h
  exact Tree.remove_apply_of_not hsrc

theorem write_entry {content : List UInt8} (h : write dst content t = some t') (hdst : ¬dst <+: p) :
    t' p = t p := by
  unfold write at h
  split at h
  · cases h
  · cases h
    exact Tree.graft_apply_of_not hdst

/-- `mkdir -p` changes no entry that is there, and none beside the path. -/
theorem mkdir_entry (h : mkdir dst t = some t') (hp : t p ≠ none ∨ ¬p <+: dst) : t' p = t p := by
  unfold mkdir at h
  split at h
  · cases h
  · cases h
    refine if_neg fun hnew => ?_
    rcases hp with hp | hp
    · exact hp hnew.2.2
    · exact hp hnew.1

end WorkerHarness.FileTrees

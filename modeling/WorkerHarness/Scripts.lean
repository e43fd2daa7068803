import Mathlib.Data.List.Basic

/-!
# Scripts of simple commands

A script runs simple commands one after another. It ends at the first one that fails, or when a signal
is handled before one; after `set +e` it goes on whatever fails. The rules bound the states in which a
script reaches its end and the states in which it stops.
-/

namespace WorkerHarness.Scripts

variable {C σ ω β : Type}

/-- `ite` runs a command for its status only. -/
inductive Script (C : Type) where
  | skip
  | run (c : C)
  | seq (p q : Script C)
  | ite (c : C) (p q : Script C)
  deriving Repr

namespace Script

/-- One after another. -/
def all : List (Script C) → Script C
  | [] => skip
  | p :: ps => seq p (all ps)

/-- `for x in xs`. -/
def forEach (xs : List β) (f : β → Script C) : Script C := all (xs.map f)

/-- `c || true`. -/
def orTrue (c : C) : Script C := ite c skip skip

/-- `set +e`: no command ends the script. -/
def tolerant : Script C → Script C
  | skip => skip
  | run c => orTrue c
  | seq p q => seq p.tolerant q.tolerant
  | ite c p q => ite c p.tolerant q.tolerant

theorem tolerant_all (ps : List (Script C)) : (all ps).tolerant = all (ps.map tolerant) := by
  induction ps with
  | nil => rfl
  | cons p ps ih => rw [all, tolerant, ih, List.map_cons, all]

theorem tolerant_forEach (xs : List β) (f : β → Script C) :
    (forEach xs f).tolerant = forEach xs fun x => (f x).tolerant := by
  rw [forEach, tolerant_all, List.map_map]
  rfl

/-- Every command satisfies the condition. -/
def Only (P : C → Prop) : Script C → Prop
  | skip => True
  | run c => P c
  | seq p q => Only P p ∧ Only P q
  | ite c p q => P c ∧ Only P p ∧ Only P q

theorem Only.imp {P Q : C → Prop} (h : ∀ c, P c → Q c) {p : Script C} (hp : p.Only P) : p.Only Q := by
  induction p with
  | skip => trivial
  | run c => exact h c hp
  | seq p q ihp ihq => exact ⟨ihp hp.1, ihq hp.2⟩
  | ite c p q ihp ihq => exact ⟨h c hp.1, ihp hp.2.1, ihq hp.2.2⟩

theorem only_all {P : C → Prop} {ps : List (Script C)} (h : ∀ p ∈ ps, p.Only P) : (all ps).Only P := by
  induction ps with
  | nil => trivial
  | cons p ps ih => exact ⟨h p (by simp), ih fun q hq => h q (by simp [hq])⟩

theorem only_forEach {P : C → Prop} {xs : List β} {f : β → Script C} (h : ∀ x ∈ xs, (f x).Only P) :
    (forEach xs f).Only P := by
  refine only_all fun p hp => ?_
  obtain ⟨x, hx, rfl⟩ := List.mem_map.mp hp
  exact h x hx

theorem only_tolerant {P : C → Prop} {p : Script C} (h : p.Only P) : p.tolerant.Only P := by
  induction p with
  | skip => trivial
  | run c => exact ⟨h, trivial, trivial⟩
  | seq p q ihp ihq => exact ⟨ihp h.1, ihq h.2⟩
  | ite c p q ihp ihq => exact ⟨h.1, ihp h.2.1, ihq h.2.2⟩

end Script

open Script

/-- How a script ends; a signal is handled before a command. -/
inductive Ending (C : Type) where
  | done
  | failed (c : C)
  | signalled (c : C)
  deriving DecidableEq, Repr

abbrev Meaning (C σ : Type) := C → σ → Bool → σ → Prop

/-- The runs of a script under `set -e`, with signals. -/
inductive Runs (exec : Meaning C σ) : Script C → σ → Ending C → σ → Prop where
  | skip (s : σ) : Runs exec skip s .done s
  | run {c : C} {s s' : σ} : exec c s true s' → Runs exec (run c) s .done s'
  | fail {c : C} {s s' : σ} : exec c s false s' → Runs exec (run c) s (.failed c) s'
  | signal (c : C) (s : σ) : Runs exec (run c) s (.signalled c) s
  | seq {p q : Script C} {s s' s'' : σ} {o : Ending C} : Runs exec p s .done s' → Runs exec q s' o s'' →
      Runs exec (seq p q) s o s''
  | stop {p q : Script C} {s s' : σ} {o : Ending C} : Runs exec p s o s' → o ≠ .done → Runs exec (seq p q) s o s'
  | ite {c : C} {p q : Script C} {s s' s'' : σ} {b : Bool} {o : Ending C} : exec c s b s' →
      Runs exec (bif b then p else q) s' o s'' → Runs exec (ite c p q) s o s''
  | signalIte (c : C) (p q : Script C) (s : σ) : Runs exec (ite c p q) s (.signalled c) s

/-- The run of a script and of the handler that is trapped on `ERR`, `INT` and `TERM`. The handler resets
the traps and tolerates failures; no signal is handled in it. -/
inductive Trapped (exec exec' : Meaning C σ) (p handler : Script C) (s : σ) : Ending C → σ → Prop where
  | done {s' : σ} : Runs exec p s .done s' → Trapped exec exec' p handler s .done s'
  | trap {o : Ending C} {s' s'' : σ} : Runs exec p s o s' → o ≠ .done → Runs exec' handler.tolerant s' .done s'' →
      Trapped exec exec' p handler s o s''

/-- From the states in `P` the script reaches its end in `Q`, and stops early only in `R`. -/
def Holds (exec : Meaning C σ) (P : σ → Prop) (p : Script C) (Q : σ → Prop) (R : Ending C → σ → Prop) : Prop :=
  ∀ s o s', P s → Runs exec p s o s' → (o = .done → Q s') ∧ (o ≠ .done → R o s')

namespace Holds

variable {exec : Meaning C σ} {P P' Q Q' M : σ → Prop} {R R' : Ending C → σ → Prop} {p q : Script C} {c : C}

theorem skip : Holds exec P .skip P R := by
  intro s o s' hs h
  cases h
  exact ⟨fun _ => hs, fun hne => absurd rfl hne⟩

theorem run (htrue : ∀ s s', P s → exec c s true s' → Q s')
    (hfalse : ∀ s s', P s → exec c s false s' → R (.failed c) s')
    (hsignal : ∀ s, P s → R (.signalled c) s) : Holds exec P (.run c) Q R := by
  intro s o s' hs h
  cases h with
  | run h => exact ⟨fun _ => htrue s s' hs h, fun hne => absurd rfl hne⟩
  | fail h => exact ⟨nofun, fun _ => hfalse s s' hs h⟩
  | signal => exact ⟨nofun, fun _ => hsignal s hs⟩

theorem seq (hp : Holds exec P p M R) (hq : Holds exec M q Q R) : Holds exec P (.seq p q) Q R := by
  intro s o s' hs h
  cases h with
  | seq h h' => exact hq _ o s' ((hp s _ _ hs h).1 rfl) h'
  | stop h hne => exact ⟨fun heq => absurd heq hne, fun _ => (hp s o s' hs h).2 hne⟩

theorem ite {T F : σ → Prop} (htrue : ∀ s s', P s → exec c s true s' → T s')
    (hfalse : ∀ s s', P s → exec c s false s' → F s') (hsignal : ∀ s, P s → R (.signalled c) s)
    (hp : Holds exec T p Q R) (hq : Holds exec F q Q R) : Holds exec P (.ite c p q) Q R := by
  intro s o s' hs h
  cases h with
  | @ite _ _ _ _ s'' _ b _ h h' =>
    cases b with
    | true => exact hp s'' o s' (htrue s s'' hs h) h'
    | false => exact hq s'' o s' (hfalse s s'' hs h) h'
  | signalIte => exact ⟨nofun, fun _ => hsignal s hs⟩

theorem mono (h : Holds exec P p Q R) (hP : ∀ s, P' s → P s) (hQ : ∀ s, Q s → Q' s) (hR : ∀ o s, R o s → R' o s) :
    Holds exec P' p Q' R' := fun s o s' hs hr =>
  ⟨fun ho => hQ s' ((h s o s' (hP s hs) hr).1 ho), fun ho => hR o s' ((h s o s' (hP s hs) hr).2 ho)⟩

/-- Commands that all keep `I` keep it wherever the script ends. -/
theorem keeps {I : σ → Prop} (hp : p.Only fun c => (∀ s b s', I s → exec c s b s' → I s') ∧
    ∀ s, I s → R (.failed c) s ∧ R (.signalled c) s) : Holds exec I p I R := by
  induction p with
  | skip => exact .skip
  | run c =>
    exact .run (hp.1 · true) (fun s s' hs h => (hp.2 s' (hp.1 s false s' hs h)).1) fun s hs => (hp.2 s hs).2
  | seq p q ihp ihq => exact (ihp hp.1).seq (ihq hp.2)
  | ite c p q ihp ihq =>
    exact .ite (hp.1.1 · true) (hp.1.1 · false) (fun s hs => (hp.1.2 s hs).2) (ihp hp.2.1) (ihq hp.2.2)

/-- An invariant of every command holds wherever the script ends. -/
theorem invariant {I : σ → Prop} (hp : p.Only fun c => ∀ s b s', I s → exec c s b s' → I s') :
    Holds exec I p I fun _ => I :=
  .keeps (Script.Only.imp (fun _ hc => ⟨hc, fun _ hs => ⟨hs, hs⟩⟩) hp)

/-- The rounds of a loop, with what the rounds before have done. -/
theorem forEach {I : List β → σ → Prop} {f : β → Script C} (xs done : List β)
    (h : ∀ x ∈ xs, ∀ done, Holds exec (I done) (f x) (I (x :: done)) R) :
    Holds exec (I done) (Script.forEach xs f) (I (xs.reverse ++ done)) R := by
  induction xs generalizing done with
  | nil => exact .skip
  | cons x xs ih =>
    rw [List.reverse_cons, List.append_assoc, List.singleton_append]
    exact (h x (by simp) done).seq (ih (x :: done) fun y hy => h y (by simp [hy]))

/-- A command that may fail. -/
theorem orTrue (h : ∀ s b s', P s → exec c s b s' → Q s') (hsignal : ∀ s, P s → R (.signalled c) s) :
    Holds exec P (.orTrue c) Q R :=
  .ite (h · true) (h · false) hsignal skip skip

end Holds

def Script.replay (step : C → ω → σ → Option (Bool × σ)) : Script C → σ → List ω → Option (Ending C × σ × List ω)
  | .skip, s, ws => some (.done, s, ws)
  | .run c, s, [] => some (.signalled c, s, [])
  | .run c, s, w :: ws =>
    match step c w s with
    | none => none
    | some (true, s') => some (.done, s', ws)
    | some (false, s') => some (.failed c, s', ws)
  | .seq p q, s, ws =>
    match p.replay step s ws with
    | some (.done, s', ws') => q.replay step s' ws'
    | r => r
  | .ite c _ _, s, [] => some (.signalled c, s, [])
  | .ite c p q, s, w :: ws =>
    match step c w s with
    | none => none
    | some (true, s') => p.replay step s' ws
    | some (false, s') => q.replay step s' ws

def meaning (step : C → ω → σ → Option (Bool × σ)) : Meaning C σ := fun c s b s' => ∃ w, step c w s = some (b, s')

theorem runs_of_replay {step : C → ω → σ → Option (Bool × σ)} {p : Script C} {s s' : σ} {ws ws' : List ω}
    {o : Ending C}
    (h : p.replay step s ws = some (o, s', ws')) : Runs (meaning step) p s o s' := by
  induction p generalizing s s' ws ws' o with
  | skip =>
    cases h
    exact .skip _
  | run c =>
    cases ws with
    | nil =>
      cases h
      exact .signal c _
    | cons w ws =>
      simp only [Script.replay] at h
      split at h <;> cases h
      · next hstep => exact .run ⟨w, hstep⟩
      · next hstep => exact .fail ⟨w, hstep⟩
  | seq p q ihp ihq =>
    simp only [Script.replay] at h
    split at h
    · next hp => exact .seq (ihp hp) (ihq h)
    · next hne => exact .stop (ihp h) fun ho => hne s' ws' (ho ▸ h)
  | ite c p q ihp ihq =>
    cases ws with
    | nil =>
      cases h
      exact .signalIte c p q _
    | cons w ws =>
      simp only [Script.replay] at h
      split at h
      · cases h
      · next hstep => exact .ite ⟨w, hstep⟩ (ihp h)
      · next hstep => exact .ite ⟨w, hstep⟩ (ihq h)

def Script.after (step : C → ω → σ → Option (Bool × σ)) (p : Script C) (s : σ) (ws : List ω) : σ :=
  ((p.replay step s ws).map fun r => r.2.1).getD s

theorem runs_after {step : C → ω → σ → Option (Bool × σ)} {p : Script C} {s : σ} {ws : List ω} {o : Ending C}
    (h : (p.replay step s ws).map (fun r => r.1) = some o) : Runs (meaning step) p s o (p.after step s ws) := by
  obtain ⟨⟨o', s', ws'⟩, hr, rfl⟩ := Option.map_eq_some_iff.mp h
  rw [Script.after, hr]
  exact runs_of_replay hr

/-- The run of a script without signals, where the state decides what each command does. -/
def Script.evaluate (step : C → σ → Bool × σ) : Script C → σ → Ending C × σ
  | .skip, s => (.done, s)
  | .run c, s => (if (step c s).1 then .done else .failed c, (step c s).2)
  | .seq p q, s =>
    match p.evaluate step s with
    | (.done, s') => q.evaluate step s'
    | r => r
  | .ite c p q, s => if (step c s).1 then p.evaluate step (step c s).2 else q.evaluate step (step c s).2

section Evaluation

variable {step : C → σ → Bool × σ} {p q : Script C} {s s' : σ} {c : C}

theorem evaluate_run_true (h : step c s = (true, s')) : (Script.run c).evaluate step s = (.done, s') := by
  change (if (step c s).1 then Ending.done else .failed c, (step c s).2) = _
  rw [h]
  rfl

theorem evaluate_run_false (h : step c s = (false, s')) : (Script.run c).evaluate step s = (.failed c, s') := by
  change (if (step c s).1 then Ending.done else .failed c, (step c s).2) = _
  rw [h]
  rfl

theorem evaluate_seq (p q : Script C) (s : σ) : (Script.seq p q).evaluate step s =
    match p.evaluate step s with
    | (.done, s') => q.evaluate step s'
    | r => r := rfl

theorem evaluate_seq_done (h : p.evaluate step s = (.done, s')) :
    (Script.seq p q).evaluate step s = q.evaluate step s' := by
  rw [evaluate_seq, h]

theorem evaluate_seq_failed (h : p.evaluate step s = (.failed c, s')) :
    (Script.seq p q).evaluate step s = (.failed c, s') := by
  rw [evaluate_seq, h]

theorem evaluate_ite_true (h : step c s = (true, s')) :
    (Script.ite c p q).evaluate step s = p.evaluate step s' := by
  change (if (step c s).1 then p.evaluate step (step c s).2 else q.evaluate step (step c s).2) = _
  rw [h, if_pos rfl]

theorem evaluate_ite_false (h : step c s = (false, s')) :
    (Script.ite c p q).evaluate step s = q.evaluate step s' := by
  change (if (step c s).1 then p.evaluate step (step c s).2 else q.evaluate step (step c s).2) = _
  rw [h, if_neg Bool.false_ne_true]

end Evaluation

end WorkerHarness.Scripts

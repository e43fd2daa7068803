import Mathlib.Data.List.Basic

/-!
# Runs whose steps meet a condition

A system takes actions one by one and refuses those that are not enabled. An invariant that every step keeps
under a condition holds after every run whose steps meet it. Such a run can be projected to the actions of one
part of the system, when the others leave alone what this part sees.
-/

namespace WorkerHarness.ConditionedRuns

variable {S A : Type} {step : S → A → Option S} {ok : S → A → Prop} {s s' t : S} {a : A} {as as' : List A}

/-- The state after the actions, if all of them are enabled in turn. -/
def run (step : S → A → Option S) : S → List A → Option S
  | s, [] => some s
  | s, a :: as => (step s a).bind fun s' => run step s' as

/-- Every action is taken in a state that meets the condition with it. -/
def Along (step : S → A → Option S) (ok : S → A → Prop) : S → List A → Prop
  | _, [] => True
  | s, a :: as => ok s a ∧ ∀ s', step s a = some s' → Along step ok s' as

/-- A run can be checked action by action. -/
instance decidableAlong [∀ s a, Decidable (ok s a)] : (s : S) → (as : List A) → Decidable (Along step ok s as)
  | _, [] => isTrue trivial
  | s, a :: as =>
    match hs : step s a with
    | none => decidable_of_iff (ok s a) ⟨fun h => ⟨h, fun _ h' => by cases hs.symm.trans h'⟩, And.left⟩
    | some s' =>
      have := decidableAlong s' as
      decidable_of_iff (ok s a ∧ Along step ok s' as)
        ⟨fun h => ⟨h.1, fun _ h' => Option.some.inj (hs.symm.trans h') ▸ h.2⟩, fun h => ⟨h.1, h.2 s' hs⟩⟩

theorem run_cons_eq_some : run step s (a :: as) = some s' ↔ ∃ s₁, step s a = some s₁ ∧ run step s₁ as = some s' :=
  Option.bind_eq_some_iff

/-- What every step keeps under the condition holds after the run. -/
theorem run_invariant (Inv : S → Prop) (hstep : ∀ s a s', Inv s → ok s a → step s a = some s' → Inv s') (h : Inv s)
    (hok : Along step ok s as) (hrun : run step s as = some s') : Inv s' := by
  induction as generalizing s with
  | nil => exact Option.some.inj hrun ▸ h
  | cons a as ih =>
    obtain ⟨s₁, hfirst, hrest⟩ := run_cons_eq_some.mp hrun
    exact ih (hstep s a s₁ h hok.1 hfirst) (hok.2 s₁ hfirst) hrest

theorem along_true (step : S → A → Option S) (s : S) (as : List A) : Along step (fun _ _ => True) s as := by
  induction as generalizing s with
  | nil => trivial
  | cons a as ih => exact ⟨trivial, fun s' _ => ih s'⟩

theorem Along.mono {ok' : S → A → Prop} (h : ∀ s a, ok s a → ok' s a) (hok : Along step ok s as) :
    Along step ok' s as := by
  induction as generalizing s with
  | nil => trivial
  | cons a as ih => exact ⟨h s a hok.1, fun s' hstep => ih (hok.2 s' hstep)⟩

/-- The actions of a run that are a part's own in the state they are taken in. -/
def project (step : S → A → Option S) (own : S → A → Bool) : S → List A → List A
  | _, [] => []
  | s, a :: as =>
    match step s a with
    | none => []
    | some s' => if own s a then a :: project step own s' as else project step own s' as

/-- When an own action can be followed and the other actions go unnoticed, the projected run can be followed. -/
theorem run_project (own : S → A → Bool) (R : S → S → Prop)
    (hown : ∀ s t a s', R s t → ok s a → own s a = true → step s a = some s' → ∃ t', step t a = some t' ∧ R s' t')
    (hother : ∀ s t a s', R s t → ok s a → own s a = false → step s a = some s' → R s' t) (h : R s t)
    (hok : Along step ok s as) (hrun : run step s as = some s') :
    ∃ t', run step t (project step own s as) = some t' ∧ R s' t' := by
  induction as generalizing s t with
  | nil => exact ⟨t, rfl, Option.some.inj hrun ▸ h⟩
  | cons a as ih =>
    obtain ⟨s₁, hfirst, hrest⟩ := run_cons_eq_some.mp hrun
    rw [project, hfirst]
    cases ha : own s a with
    | true =>
      obtain ⟨t₁, hfollow, hrelated⟩ := hown s t a s₁ h hok.1 ha hfirst
      obtain ⟨t', hrun', h'⟩ := ih hrelated (hok.2 s₁ hfirst) hrest
      exact ⟨t', run_cons_eq_some.mpr ⟨t₁, hfollow, hrun'⟩, h'⟩
    | false => exact ih (hother s t a s₁ h hok.1 ha hfirst) (hok.2 s₁ hfirst) hrest

end WorkerHarness.ConditionedRuns

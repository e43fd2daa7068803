import Mathlib.Data.Nat.Notation
import Mathlib.Logic.Basic

/-!
# Process groups

A group of processes with its leader. Members come and go at any time; a leader that has exited stays a
member until it is waited for. A group whose last member is gone never has one again.
-/

namespace WorkerHarness.ProcessGroups

inductive Leader where
  | running
  | zombie
  | reaped
  deriving DecidableEq

/-- The leader, the number of the other members, and whether the group was sent the signal that no member can
ignore. -/
structure ProcessGroup where
  leader : Leader
  others : ℕ
  killed : Bool := false
  deriving DecidableEq

def ProcessGroup.started : ProcessGroup := { leader := .running, others := 0 }

/-- `killpg(pgid, 0)` finds a member. -/
def ProcessGroup.present (g : ProcessGroup) : Bool := g.leader != .reaped || 0 < g.others

inductive Signal where
  | sigterm
  | sigkill
  deriving DecidableEq

/-- A signal to the whole group; what its members make of it they do later. -/
def ProcessGroup.signal (sig : Signal) (g : ProcessGroup) : ProcessGroup :=
  if sig = .sigkill && g.present then { g with killed := true } else g

def ProcessGroup.killLeader (g : ProcessGroup) : ProcessGroup :=
  if g.leader = .running then { g with leader := .zombie } else g

/-- What happens in a group. A member that joins another group is one that exits. -/
inductive Change where
  | fork
  | exit
  | leaderExit
  | reap
  deriving DecidableEq

def ProcessGroup.change (g : ProcessGroup) : Change → Option ProcessGroup
  | .fork => if g.leader = .running ∨ 0 < g.others then some { g with others := g.others + 1 } else none
  | .exit => if 0 < g.others then some { g with others := g.others - 1 } else none
  | .leaderExit => if g.leader = .running then some { g with leader := .zombie } else none
  | .reap => if g.leader = .zombie then some { g with leader := .reaped } else none

variable {g g' : ProcessGroup} {change : Change}

theorem present_of_reaped (h : g.leader = .reaped) : g.present = decide (0 < g.others) := by
  simp [ProcessGroup.present, h]

@[simp] theorem leader_signal (sig : Signal) : (g.signal sig).leader = g.leader := by
  unfold ProcessGroup.signal
  split <;> rfl

@[simp] theorem others_signal (sig : Signal) : (g.signal sig).others = g.others := by
  unfold ProcessGroup.signal
  split <;> rfl

@[simp] theorem present_signal (sig : Signal) : (g.signal sig).present = g.present := by
  simp [ProcessGroup.present]

theorem killLeader_of_reaped (h : g.leader = .reaped) : g.killLeader = g := by
  simp [ProcessGroup.killLeader, h]

theorem killed_signal (h : g.present = true) : (g.signal .sigkill).killed = true := by
  simp [ProcessGroup.signal, h]

/-- What a change leaves of the group. -/
theorem change_cases (h : g.change change = some g') :
    g'.killed = g.killed ∧ (g'.present = true → g.present = true) ∧ (g.leader = .reaped → g'.leader = .reaped) := by
  cases change with
  | fork =>
    simp only [ProcessGroup.change] at h
    split at h
    · next hlive =>
      cases h
      refine ⟨rfl, fun _ => ?_, id⟩
      rcases hlive with hleader | hothers
      · simp [ProcessGroup.present, hleader]
      · simp [ProcessGroup.present, hothers]
    · cases h
  | exit =>
    simp only [ProcessGroup.change] at h
    split at h
    · next hothers =>
      cases h
      exact ⟨rfl, fun _ => by simp [ProcessGroup.present, hothers], id⟩
    · cases h
  | leaderExit =>
    simp only [ProcessGroup.change] at h
    split at h
    · next hleader =>
      cases h
      exact ⟨rfl, fun _ => by simp [ProcessGroup.present, hleader], fun hreaped => by
        cases hleader.symm.trans hreaped⟩
    · cases h
  | reap =>
    simp only [ProcessGroup.change] at h
    split at h
    · next hleader =>
      cases h
      exact ⟨rfl, fun _ => by simp [ProcessGroup.present, hleader], fun _ => rfl⟩
    · cases h

end WorkerHarness.ProcessGroups

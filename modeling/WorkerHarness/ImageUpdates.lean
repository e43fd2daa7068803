import WorkerHarness.Scripts
import Mathlib.Data.List.Infix
import Mathlib.Data.List.Range

/-!
# Updates of the worker image

`worker-harness-update.sh` as a script of commands on the places of the images: the new image is moved
into place, the service is restarted and polled, and the old image comes back if it does not stay up.
-/

namespace WorkerHarness.ImageUpdates

open Scripts

/-- The images by where they are when the script starts. -/
inductive Image where
  | previous
  | new
  | other
  deriving DecidableEq, Repr

/-- What a path names: nothing, an image, a directory (or a link to one), or anything else. -/
inductive Place where
  | absent
  | image (i : Image)
  | directory
  | other
  deriving DecidableEq, Repr

inductive File where
  | cur
  | old
  | failed
  | new
  deriving DecidableEq, Repr

/-- The places, the variables of the script, and the polls so far with their health. -/
structure Machine where
  places : File → Place
  activeStreak : ℕ := 0
  healthy : Bool := false
  polls : List Bool := []

/-- What the external commands do once the images are moved. -/
structure Outcomes where
  restart : Bool
  attempts : ℕ
  sleep : ℕ → Bool
  state : ℕ → String
  daemonPid : ℕ → String
  removeOld : Bool
  setAside : Bool
  putBack : Bool
  restartBack : Bool

inductive Command where
  | testF (file : File)
  | mv (source destination : File)
  | restart
  | sleep (attempt : ℕ)
  | poll (attempt : ℕ)
  | streakReached
  | setHealthy
  | isHealthy
  | rmOld
  | restartBack
  deriving DecidableEq, Repr

def isImage : Place → Bool
  | .image _ => true
  | _ => false

/-- `mv -f`: onto a directory, the source goes into it. -/
def Machine.move (m : Machine) (source destination : File) : Machine :=
  { m with
    places := fun file =>
      if file = source then .absent
      else if file = destination ∧ m.places destination ≠ .directory then m.places source
      else m.places file }

def Outcomes.moves (out : Outcomes) : File → File → Bool
  | .cur, .failed => out.setAside
  | .old, .cur => out.putBack
  | _, _ => true

/-- A poll finds the service active and the daemon alive. -/
def Outcomes.live (out : Outcomes) (attempt : ℕ) : Bool :=
  decide (out.state attempt = "active") && out.daemonPid attempt ≠ ""

def step (out : Outcomes) : Command → Machine → Bool × Machine
  | .testF file, m => (isImage (m.places file), m)
  | .mv source destination, m =>
    if out.moves source destination then (true, m.move source destination) else (false, m)
  | .restart, m => (out.restart, m)
  | .sleep attempt, m => (out.sleep attempt, m)
  | .poll attempt, m =>
    (true, { m with
      activeStreak := if out.live attempt then m.activeStreak + 1 else 0,
      polls := m.polls ++ [out.live attempt] })
  | .streakReached, m => (decide (10 ≤ m.activeStreak), m)
  | .setHealthy, m => (true, { m with healthy := true })
  | .isHealthy, m => (m.healthy, m)
  | .rmOld, m =>
    if out.removeOld ∧ m.places .old ≠ .directory then
      (true, { m with places := fun file => if file = .old then .absent else m.places file })
    else (false, m)
  | .restartBack, m => (out.restartBack, m)

/-- `for attempt in $(seq 1 20)`, left by `break` when the streak is long enough. -/
def pollRounds : List ℕ → Script Command
  | [] => .skip
  | attempt :: attempts =>
    .seq (.run (.sleep attempt)) <| .seq (.run (.poll attempt)) <|
      .ite .streakReached (.run .setHealthy) (pollRounds attempts)

def rollBack : Script Command :=
  .seq (.run (.mv .cur .failed)) <|
    .ite (.testF .old) (.seq (.run (.mv .old .cur)) (.run .restartBack)) .skip

/-- `worker-harness-update.sh`, after it has the lock. -/
def updateScript (out : Outcomes) : Script Command :=
  .ite (.testF .new)
    (.seq (.ite (.testF .cur) (.run (.mv .cur .old)) .skip) <|
      .seq (.run (.mv .new .cur)) <|
        .seq (.run .restart) <|
          .seq (pollRounds (List.range' 1 out.attempts)) <|
            .ite .isHealthy (.run .rmOld) rollBack)
    .skip

def update (out : Outcomes) (m : Machine) : Machine := ((updateScript out).evaluate (step out) m).2

/-- A current image and a new one; a backup or a rejected image of an earlier update may be there. -/
def start (old failed : Place) : Machine :=
  { places := fun
      | .cur => .image .previous
      | .new => .image .new
      | .old => old
      | .failed => failed }

def TenHealthy (polls : List Bool) : Prop := List.replicate 10 true <:+: polls

instance (polls : List Bool) : Decidable (TenHealthy polls) := inferInstanceAs (Decidable (_ <:+: _))

def streak (polls : List Bool) : ℕ := polls.foldl (fun n live => if live then n + 1 else 0) 0

variable {polls : List Bool} {live : Bool} {k : ℕ}

theorem streak_concat : streak (polls ++ [live]) = if live then streak polls + 1 else 0 := by
  rw [streak, List.foldl_append]
  rfl

theorem replicate_suffix_iff : List.replicate k true <:+ polls ↔ k ≤ streak polls := by
  induction polls using List.reverseRecOn generalizing k with
  | nil => cases k <;> simp [streak]
  | append_singleton polls live ih =>
    cases k with
    | zero => simp
    | succ k =>
      rw [streak_concat, List.replicate_succ', List.suffix_concat_iff]
      cases live with
      | true =>
        simp only [if_true, Nat.add_le_add_iff_right, ← ih]
        constructor
        · intro h
          rcases h with h | ⟨l, hl, hsuffix⟩
          · simp at h
          · obtain ⟨rfl, -⟩ := List.append_inj' hl rfl
            exact hsuffix
        · intro h
          exact .inr ⟨_, rfl, h⟩
      | false =>
        simp

/-- The tenth healthy poll in a row is seen when the counter gets there. -/
theorem tenHealthy_concat : TenHealthy (polls ++ [live]) ↔ TenHealthy polls ∨ 10 ≤ streak (polls ++ [live]) := by
  unfold TenHealthy
  rw [List.infix_concat_iff, replicate_suffix_iff, or_comm]

theorem TenHealthy.append (h : TenHealthy polls) (more : List Bool) : TenHealthy (polls ++ more) :=
  h.trans (List.prefix_append _ _).isInfix

variable {out : Outcomes} {m : Machine} {attempts : List ℕ}

def Machine.polled (m : Machine) (out : Outcomes) (attempts : List ℕ) : Machine :=
  { m with activeStreak := streak (m.polls ++ attempts.map out.live), polls := m.polls ++ attempts.map out.live }

/-- How the polling of some attempts ends: healthy after the first of them, at a `sleep` that fails, or
unhealthy after all. -/
inductive Polled (out : Outcomes) (m : Machine) (attempts : List ℕ) : Ending Command × Machine → Prop where
  | healthy (seen rest : List ℕ) : attempts = seen ++ rest → (∀ a ∈ seen, out.sleep a = true) →
      TenHealthy (m.polls ++ seen.map out.live) →
        Polled out m attempts (.done, { m.polled out seen with healthy := true })
  | failed (seen rest : List ℕ) (attempt : ℕ) : attempts = seen ++ attempt :: rest → out.sleep attempt = false →
      ¬TenHealthy (m.polls ++ seen.map out.live) →
        Polled out m attempts (.failed (.sleep attempt), m.polled out seen)
  | unhealthy : (∀ a ∈ attempts, out.sleep a = true) → ¬TenHealthy (m.polls ++ attempts.map out.live) →
      Polled out m attempts (.done, m.polled out attempts)

/-- One poll more in front. -/
theorem Polled.cons {attempt : ℕ} {r : Ending Command × Machine} (hsleep : out.sleep attempt = true)
    (h : Polled out (m.polled out [attempt]) attempts r) : Polled out m (attempt :: attempts) r := by
  have hpolled (seen : List ℕ) : (m.polled out [attempt]).polled out seen = m.polled out (attempt :: seen) := by
    simp [Machine.polled]
  have hpolls (seen : List ℕ) : (m.polled out [attempt]).polls ++ seen.map out.live =
      m.polls ++ (attempt :: seen).map out.live := by
    simp [Machine.polled]
  have hall {seen : List ℕ} (h : ∀ a ∈ seen, out.sleep a = true) : ∀ a ∈ attempt :: seen, out.sleep a = true := by
    intro a ha
    rcases List.mem_cons.mp ha with rfl | ha
    · exact hsleep
    · exact h a ha
  cases h with
  | healthy seen rest heq hsleeps hten =>
    rw [hpolled]
    rw [hpolls] at hten
    exact .healthy (attempt :: seen) rest (by rw [heq, List.cons_append]) (hall hsleeps) hten
  | failed seen rest a heq hfails hten =>
    rw [hpolled]
    rw [hpolls] at hten
    exact .failed (attempt :: seen) rest a (by rw [heq, List.cons_append]) hfails hten
  | unhealthy hsleeps hten =>
    rw [hpolled]
    rw [hpolls] at hten
    exact .unhealthy (hall hsleeps) hten

theorem polled_pollRounds (hstreak : m.activeStreak = streak m.polls) (hten : ¬TenHealthy m.polls) :
    Polled out m attempts ((pollRounds attempts).evaluate (step out) m) := by
  induction attempts generalizing m with
  | nil =>
    have hsame : m.polled out [] = m := by simp [Machine.polled, ← hstreak]
    have hend : (pollRounds []).evaluate (step out) m = (.done, m.polled out []) := by rw [hsame]; rfl
    rw [hend]
    exact .unhealthy nofun (by simpa using hten)
  | cons attempt attempts ih =>
    cases hsleep : out.sleep attempt with
    | false =>
      have hstop : (Script.run (.sleep attempt)).evaluate (step out) m = (.failed (.sleep attempt), m) :=
        evaluate_run_false (by rw [step, hsleep])
      have hsame : m.polled out [] = m := by simp [Machine.polled, ← hstreak]
      have hfailed : Polled out m (attempt :: attempts) (.failed (.sleep attempt), m.polled out []) :=
        .failed [] attempts attempt rfl hsleep (by simpa using hten)
      rw [hsame] at hfailed
      rw [pollRounds, evaluate_seq_failed hstop]
      exact hfailed
    | true =>
      have hrun : (Script.run (.sleep attempt)).evaluate (step out) m = (.done, m) :=
        evaluate_run_true (by rw [step, hsleep])
      have hpoll : (Script.run (.poll attempt)).evaluate (step out) m = (.done, m.polled out [attempt]) := by
        apply evaluate_run_true
        simp [step, Machine.polled, streak_concat, hstreak]
      rw [pollRounds, evaluate_seq_done hrun, evaluate_seq_done hpoll]
      apply Polled.cons hsleep
      by_cases hlong : 10 ≤ (m.polled out [attempt]).activeStreak
      · have hten' : TenHealthy ((m.polled out [attempt]).polls ++ [].map out.live) := by
          rw [List.map_nil, List.append_nil]
          exact tenHealthy_concat.mpr (.inr hlong)
        have hreached : step out .streakReached (m.polled out [attempt]) = (true, m.polled out [attempt]) := by
          rw [step, decide_eq_true hlong]
        have hset : (Script.run .setHealthy).evaluate (step out) (m.polled out [attempt]) =
            (.done, { (m.polled out [attempt]).polled out [] with healthy := true }) := by
          apply evaluate_run_true
          simp [step, Machine.polled]
        rw [evaluate_ite_true hreached, hset]
        exact .healthy [] attempts rfl nofun hten'
      · have hreached : step out .streakReached (m.polled out [attempt]) = (false, m.polled out [attempt]) := by
          rw [step, decide_eq_false hlong]
        rw [evaluate_ite_false hreached]
        apply ih rfl
        intro hten'
        rcases tenHealthy_concat.mp hten' with h | h
        · exact hten h
        · exact hlong h

structure KeepsWorkingImage (m : Machine) : Prop where
  working : TenHealthy m.polls ∧ m.places .cur = .image .new ∨ m.places .cur = .image .previous
  parked : ¬(m.places .cur = .image .new ∧ ¬TenHealthy m.polls ∧ m.places .old = .image .previous)

/-- Ten healthy polls in a row come before a `sleep` fails. -/
def Outcomes.Healthy (out : Outcomes) : Prop :=
  ∃ seen, seen <+: List.range' 1 out.attempts ∧ (∀ a ∈ seen, out.sleep a = true) ∧ TenHealthy (seen.map out.live)

/-- The polls go on to their end, and the two moves back are possible and succeed. -/
structure Outcomes.RollsBack (out : Outcomes) (old : Place) : Prop where
  sleeps : ∀ a ∈ List.range' 1 out.attempts, out.sleep a = true
  setAside : out.setAside = true
  backup : old ≠ .directory
  putBack : out.putBack = true

variable {old failed : Place}

def inPlace (old failed : Place) : Machine :=
  { places := fun
      | .cur => .image .new
      | .new => .absent
      | .old => if old = .directory then .directory else .image .previous
      | .failed => failed }

theorem moved_inPlace : ((start old failed).move .cur .old).move .new .cur = inPlace old failed := by
  simp only [Machine.move, start, inPlace, Machine.mk.injEq, and_true]
  funext file
  cases file with
  | old => by_cases h : old = .directory <;> simp [h]
  | _ => simp

def afterMoves (out : Outcomes) : Script Command :=
  .seq (.run .restart) <| .seq (pollRounds (List.range' 1 out.attempts)) <| .ite .isHealthy (.run .rmOld) rollBack

theorem update_eq : update out (start old failed) =
    ((afterMoves out).evaluate (step out) (inPlace old failed)).2 := by
  have htest : step out (.testF .new) (start old failed) = (true, start old failed) := rfl
  have hcur : (Script.ite (.testF .cur) (.run (.mv .cur .old)) .skip).evaluate (step out) (start old failed) =
      (.done, (start old failed).move .cur .old) := rfl
  have hnew : (Script.run (.mv .new .cur)).evaluate (step out) ((start old failed).move .cur .old) =
      (.done, inPlace old failed) := by
    rw [← moved_inPlace]
    rfl
  rw [update, updateScript, evaluate_ite_true htest, evaluate_seq_done hcur, evaluate_seq_done hnew, afterMoves]

/-- The new image without its health check, with the previous one parked or lost. -/
theorem not_keeps {m : Machine} (hcur : m.places .cur = .image .new) (hten : ¬TenHealthy m.polls) :
    ¬KeepsWorkingImage m := by
  intro h
  rcases h.working with ⟨h, -⟩ | h
  · exact hten h
  · rw [hcur] at h
    cases h

theorem not_tenHealthy_nil : ¬TenHealthy [] := by decide

/-- A healthy image is kept, whether the backup can be removed or not. -/
theorem keeps_of_healthy {m : Machine} (hcur : m.places .cur = .image .new) (hten : TenHealthy m.polls) :
    KeepsWorkingImage ((Script.run Command.rmOld).evaluate (step out) m).2 := by
  have hkept : ((Script.run Command.rmOld).evaluate (step out) m).2.polls = m.polls ∧
      ((Script.run Command.rmOld).evaluate (step out) m).2.places .cur = m.places .cur := by
    by_cases h : out.removeOld ∧ m.places .old ≠ .directory
    · simp [Script.evaluate, step, h]
    · simp [Script.evaluate, step, h]
  constructor
  · rw [hkept.1, hkept.2]
    exact .inl ⟨hten, hcur⟩
  · rw [hkept.1]
    exact fun h => h.2.1 hten

/-- With nothing in place there is no working image. -/
theorem not_keeps_absent {m : Machine} (hcur : m.places .cur = .absent) : ¬KeepsWorkingImage m := by
  intro h
  rcases h.working with ⟨-, h⟩ | h
  · rw [hcur] at h
    cases h
  · rw [hcur] at h
    cases h

/-- The roll-back restores the previous image exactly when both moves back are done. -/
theorem keeps_rollBack_iff {m : Machine} (hplaces : m.places = (inPlace old failed).places)
    (hten : ¬TenHealthy m.polls) :
    KeepsWorkingImage (rollBack.evaluate (step out) m).2 ↔
      out.setAside = true ∧ old ≠ .directory ∧ out.putBack = true := by
  cases haside : out.setAside with
  | false =>
    have hstop : (Script.run (.mv .cur .failed)).evaluate (step out) m = (.failed (.mv .cur .failed), m) :=
      evaluate_run_false (by simp [step, Outcomes.moves, haside])
    rw [rollBack, evaluate_seq_failed hstop]
    constructor
    · intro h
      exact absurd h (not_keeps (congrFun hplaces .cur) hten)
    · intro h
      cases h.1
  | true =>
    have hrun : (Script.run (.mv .cur .failed)).evaluate (step out) m = (.done, m.move .cur .failed) :=
      evaluate_run_true (by simp [step, Outcomes.moves, haside])
    have hcur : (m.move .cur .failed).places .cur = .absent := rfl
    have hold : (m.move .cur .failed).places .old = if old = .directory then .directory else .image .previous :=
      congrFun hplaces .old
    rw [rollBack, evaluate_seq_done hrun]
    by_cases hdir : old = .directory
    · have htest : step out (.testF .old) (m.move .cur .failed) = (false, m.move .cur .failed) := by
        simp [step, hold, hdir, isImage]
      rw [evaluate_ite_false htest]
      constructor
      · intro h
        exact absurd h (not_keeps_absent hcur)
      · intro h
        exact absurd hdir h.2.1
    · have htest : step out (.testF .old) (m.move .cur .failed) = (true, m.move .cur .failed) := by
        simp [step, hold, hdir, isImage]
      rw [evaluate_ite_true htest]
      cases hback : out.putBack with
      | false =>
        have hstop : (Script.run (.mv .old .cur)).evaluate (step out) (m.move .cur .failed) =
            (.failed (.mv .old .cur), m.move .cur .failed) :=
              evaluate_run_false (by simp [step, Outcomes.moves, hback])
        rw [evaluate_seq_failed hstop]
        constructor
        · intro h
          exact absurd h (not_keeps_absent hcur)
        · intro h
          cases h.2.2
      | true =>
        have hrun' : (Script.run (.mv .old .cur)).evaluate (step out) (m.move .cur .failed) =
            (.done, (m.move .cur .failed).move .old .cur) :=
              evaluate_run_true (by simp [step, Outcomes.moves, hback])
        have hback' : ((m.move .cur .failed).move .old .cur).places .cur = .image .previous := by
          simp [Machine.move, congrFun hplaces .old, inPlace, hdir]
        have hkept : ((Script.run Command.restartBack).evaluate (step out)
          ((m.move .cur .failed).move .old .cur)).2 =
            (m.move .cur .failed).move .old .cur := rfl
        rw [evaluate_seq_done hrun', hkept]
        constructor
        · intro _
          exact ⟨rfl, hdir, rfl⟩
        · intro _
          constructor
          · exact .inr hback'
          · rw [hback']
            exact fun h => nomatch h.1

/-- Ten healthy polls after some of the attempts are there after more of them. -/
theorem tenHealthy_later {seen seen' : List ℕ} (hseen : seen <+: seen') (hten : TenHealthy (seen.map out.live)) :
    TenHealthy (seen'.map out.live) := by
  obtain ⟨rest, rfl⟩ := hseen
  rw [List.map_append]
  exact hten.append _

/-- A working image is kept exactly when the first restart succeeds, and the new image gets healthy or the roll-back
goes through. -/
theorem keeps_working_image_iff (out : Outcomes) (old failed : Place) :
    KeepsWorkingImage (update out (start old failed)) ↔ out.restart = true ∧ (out.Healthy ∨ out.RollsBack old) := by
  rw [update_eq, afterMoves]
  cases hrestart : out.restart with
  | false =>
    have hstop : (Script.run .restart).evaluate (step out) (inPlace old failed) =
      (.failed .restart, inPlace old failed) :=
      evaluate_run_false (by rw [step, hrestart])
    rw [evaluate_seq_failed hstop]
    constructor
    · intro h
      exact absurd h (not_keeps rfl not_tenHealthy_nil)
    · intro h
      cases h.1
  | true =>
    have hrun : (Script.run .restart).evaluate (step out) (inPlace old failed) = (.done, inPlace old failed) :=
      evaluate_run_true (by rw [step, hrestart])
    rw [evaluate_seq_done hrun]
    have hpolled : Polled out (inPlace old failed) (List.range' 1 out.attempts)
        ((pollRounds (List.range' 1 out.attempts)).evaluate (step out) (inPlace old failed)) :=
      polled_pollRounds rfl not_tenHealthy_nil
    generalize hr : (pollRounds (List.range' 1 out.attempts)).evaluate (step out) (inPlace old failed) =
      r at hpolled
    cases hpolled with
    | healthy seen rest heq hsleeps hten =>
      have hset (m : Machine) : step out .isHealthy { m with healthy := true } =
        (true, { m with healthy := true }) := rfl
      rw [evaluate_seq_done hr, evaluate_ite_true (hset _)]
      constructor
      · intro _
        exact ⟨rfl, .inl ⟨seen, ⟨rest, heq.symm⟩, hsleeps, hten⟩⟩
      · intro _
        exact keeps_of_healthy rfl hten
    | failed seen rest attempt heq hfails hten =>
      rw [evaluate_seq_failed hr]
      constructor
      · intro h
        exact absurd h (not_keeps rfl hten)
      · intro ⟨_, h⟩
        exfalso
        rcases h with ⟨seen', hprefix, hsleeps, hten'⟩ | h
        · -- The polls cannot have gone past the `sleep` that fails.
          have hseen : seen ++ [attempt] <+: List.range' 1 out.attempts := ⟨rest, by rw [heq]; simp⟩
          rcases List.prefix_or_prefix_of_prefix hprefix hseen with hle | hle
          · rcases List.prefix_concat_iff.mp hle with rfl | hle
            · rw [hsleeps attempt (by simp)] at hfails
              cases hfails
            · exact hten (tenHealthy_later hle hten')
          · rw [hsleeps attempt (hle.subset (by simp))] at hfails
            cases hfails
        · rw [h.sleeps attempt (by rw [heq]; simp)] at hfails
          cases hfails
    | unhealthy hsleeps hten =>
      have hunset : step out .isHealthy ((inPlace old failed).polled out (List.range' 1 out.attempts)) =
          (false, (inPlace old failed).polled out (List.range' 1 out.attempts)) := rfl
      rw [evaluate_seq_done hr, evaluate_ite_false hunset,
        keeps_rollBack_iff (m := (inPlace old failed).polled out (List.range' 1 out.attempts)) rfl hten]
      constructor
      · intro ⟨haside, hdir, hback⟩
        exact ⟨rfl, .inr ⟨hsleeps, haside, hdir, hback⟩⟩
      · intro ⟨_, h⟩
        rcases h with ⟨seen, hseen, -, hten'⟩ | h
        · exact absurd (tenHealthy_later hseen hten') hten
        · exact ⟨h.setAside, h.backup, h.putBack⟩

/-- Every command succeeds, but the restart of the service with the new image. -/
def failedRestart : Outcomes :=
  { restart := false, attempts := 20, sleep := fun _ => true, state := fun _ => "failed", daemonPid := fun _ => "",
    removeOld := true, setAside := true, putBack := true, restartBack := true }

/-- A restart that fails leaves the new image in place, and the previous one parked. -/
theorem not_keeps_working_image : ¬∀ (out : Outcomes) (old failed : Place),
    KeepsWorkingImage (update out (start old failed)) := by
  intro h
  have hcur : (update failedRestart (start .absent .absent)).places .cur = .image .new := rfl
  exact not_keeps hcur not_tenHealthy_nil (h failedRestart .absent .absent)

end WorkerHarness.ImageUpdates

import WorkerHarness.Base64
import WorkerHarness.BashStrings
import WorkerHarness.Models

/-!
# Downloads

`ssh_download_bytes` cuts what it reads at the limit before the route compares it with the limit. A file that
is too large is therefore answered with a part of it.
-/

namespace WorkerHarness.FileDownloads

open BashStrings

structure SSHResult where
  stderr : String
  returncode : ℤ

/-- How a call of `cat` over ssh may go. -/
inductive Outcome where
  | laneTimeout
  | notFound
  | timedOut
  | cancelled
  | raised
  | exited (stdout : Option Bytes) (stderr : String) (returncode : Option ℤ)

/-- Exceptions that leave `ssh_download_bytes`. -/
inductive Escape where
  | laneTimeout
  | cancelled
  | raised

/-- `ssh_download_bytes`. -/
def sshDownloadBytes (maxBytes timeout : ℕ) : Outcome → Except Escape (Bytes × SSHResult)
  | .laneTimeout => .error .laneTimeout
  | .notFound => .ok ([], { stderr := "ssh command not found", returncode := 127 })
  | .timedOut => .ok ([], { stderr := "Command timed out after " ++ toString timeout ++ "s", returncode := -1 })
  | .cancelled => .error .cancelled
  | .raised => .error .raised
  | .exited stdout stderr returncode =>
    let content := stdout.getD []
    let content := if content.length > maxBytes then content.take maxBytes else content
    .ok (content, { stderr := stderr, returncode := returncode.getD 0 })

def maxFileTransferBytes : ℕ := 10 * 1024 * 1024

inductive Response where
  | file (workerId path : String) (size : ℕ) (contentB64 : String)
  | error (status : ℕ) (detail : String)
  | cancelled
  deriving DecidableEq

/-- `GET /api/v1/workers/{worker_id}/files`, for the worker that is found. -/
def workerFileDownload (workerId : String) (worker : Option Worker) (path : String) (maxBytes : ℕ)
    (outcome : Outcome) :
    Response :=
  match worker with
  | none => .error 404 ("Worker not found: " ++ workerId)
  | some worker =>
    match sshDownloadBytes maxBytes 30 outcome with
    | .error .laneTimeout => .error 503 "WORKER_LANE_BUSY"
    | .error .cancelled => .cancelled
    | .error .raised => .error 500 "Internal Server Error"
    | .ok (content, result) =>
      if result.returncode ≠ 0 then
        .error 502 ("SSH download failed: " ++ if result.stderr = "" then "unknown error" else result.stderr)
      else if content.length > maxBytes then
        .error 413 ("File too large: " ++ toString content.length ++ " bytes > " ++ toString maxBytes ++
          " limit. Use rsync over tailnet SSH for large files.")
      else .file worker.id path content.length (decodeAscii (Base64.encode content))

/-- An outcome for the file: a `cat` that ends with 0 has printed all of it. -/
def Outcome.Of (file : Bytes) : Outcome → Prop
  | .exited stdout _ returncode => returncode ≠ none ∧ (returncode = some 0 → stdout.getD [] = file)
  | _ => True

def Outcome.Succeeds : Outcome → Prop
  | .exited _ _ returncode => returncode = some 0
  | _ => False

structure WholeOrRefused (file : Bytes) (maxBytes : ℕ) (outcome : Outcome) (response : Response) : Prop where
  whole : ∀ workerId path size contentB64, response = .file workerId path size contentB64 →
    Base64.decode (utf8 contentB64) = some file ∧ size = file.length
  long : maxBytes < file.length → outcome.Succeeds → ∃ detail, response = .error 413 detail
  failed : ¬outcome.Succeeds → ∀ workerId path size contentB64, response ≠ .file workerId path size contentB64

variable {workerId path : String} {worker : Worker} {file : Bytes} {maxBytes : ℕ} {outcome : Outcome}

/-- A transfer that succeeds is answered with the file up to the limit. -/
theorem workerFileDownload_of_succeeds (hof : outcome.Of file) (h : outcome.Succeeds) :
    workerFileDownload workerId (some worker) path maxBytes outcome =
      .file worker.id path (file.take maxBytes).length (decodeAscii (Base64.encode (file.take maxBytes))) := by
  cases outcome with
  | exited stdout stderr returncode =>
    have hcode : returncode = some 0 := h
    subst hcode
    have hcut : (if (stdout.getD []).length > maxBytes then (stdout.getD []).take maxBytes else stdout.getD []) =
        file.take maxBytes := by
      rw [hof.2 rfl]
      split
      · rfl
      · next hle => exact (List.take_of_length_le (Nat.le_of_not_gt hle)).symm
    have hlen : ¬(file.take maxBytes).length > maxBytes := by simp
    simp only [workerFileDownload, sshDownloadBytes, hcut, Option.getD_some, ne_eq, not_true_eq_false, if_false,
      if_neg hlen]
  | _ => exact h.elim

/-- A transfer that fails is never answered with a file. -/
theorem workerFileDownload_of_fails (hof : outcome.Of file) (h : ¬outcome.Succeeds) (size : ℕ)
    (id path' contentB64 : String) :
    workerFileDownload workerId (some worker) path maxBytes outcome ≠ .file id path' size contentB64 := by
  cases outcome with
  | exited stdout stderr returncode =>
    obtain ⟨code, rfl⟩ := Option.ne_none_iff_exists'.mp hof.1
    have hcode : code ≠ 0 := fun hzero => h (congrArg some hzero)
    simp [workerFileDownload, sshDownloadBytes, hcode]
  | _ => simp [workerFileDownload, sshDownloadBytes]

theorem decode_contentB64 (content : Bytes) : Base64.decode (utf8 (decodeAscii (Base64.encode content))) =
    some content := by
  rw [utf8_decodeAscii fun _ hb => Base64.ascii_of_mem_encode hb, Base64.decode_encode]

/-- A download is whole or refused exactly when the transfer fails or the file is within the limit. -/
theorem whole_or_refused_iff (hof : outcome.Of file) :
    WholeOrRefused file maxBytes outcome (workerFileDownload workerId (some worker) path maxBytes outcome) ↔
      (outcome.Succeeds → file.length ≤ maxBytes) := by
  constructor
  · intro h hsucceeds
    have hwhole := (h.whole _ _ _ _ (workerFileDownload_of_succeeds hof hsucceeds)).2
    rw [List.length_take] at hwhole
    exact min_eq_right_iff.mp hwhole
  · intro hle
    by_cases hsucceeds : outcome.Succeeds
    · have hfile : file.take maxBytes = file := List.take_of_length_le (hle hsucceeds)
      rw [workerFileDownload_of_succeeds hof hsucceeds, hfile]
      refine ⟨fun id path' size contentB64 h => ?_, fun hlt _ => absurd (hle hsucceeds) (Nat.not_le_of_lt hlt),
        fun hfails => absurd hsucceeds hfails⟩
      cases h
      exact ⟨decode_contentB64 file, rfl⟩
    · refine ⟨fun id path' size contentB64 h => ?_, fun _ h => absurd h hsucceeds,
        fun hfails id path' size contentB64 =>
        workerFileDownload_of_fails hof hfails size id path' contentB64⟩
      exact absurd h (workerFileDownload_of_fails hof hsucceeds size id path' contentB64)

/-- Two bytes are whole with a limit of two, and neither whole nor refused with a limit of one. -/
theorem whole_or_refused_iff_twoBytes :
    let outcome := Outcome.exited (some [1, 2]) "" (some 0)
    let download := fun maxBytes => workerFileDownload "w" (some { id := "w", name := "w" }) "/f" maxBytes outcome
    WholeOrRefused [1, 2] 2 outcome (download 2) ∧ ¬WholeOrRefused [1, 2] 1 outcome (download 1) := by
  intro outcome download
  have hof : outcome.Of [1, 2] := ⟨nofun, fun _ => rfl⟩
  constructor
  · exact (whole_or_refused_iff hof).mpr fun _ => by decide
  · intro h
    exact absurd ((whole_or_refused_iff hof).mp h rfl) (by decide)

/-- Two bytes with a limit of one are answered with the first of them. -/
theorem not_whole_or_refused : ¬∀ (file : Bytes) (maxBytes : ℕ) (outcome : Outcome), 1 ≤ maxBytes →
    maxBytes ≤ maxFileTransferBytes → outcome.Of file →
      WholeOrRefused file maxBytes outcome
      (workerFileDownload "w" (some { id := "w", name := "w" }) "/f" maxBytes outcome) := by
  intro h
  have hwhole := (h [1, 2] 1 (.exited (some [1, 2]) "" (some 0)) (by decide) (by decide)
    ⟨nofun, fun _ => rfl⟩).whole
  exact absurd (hwhole _ _ _ _ rfl).2 (by decide)

end WorkerHarness.FileDownloads

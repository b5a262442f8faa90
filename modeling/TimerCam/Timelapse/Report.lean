import TimerCam.Lib.Lease
import TimerCam.Lib.History
import TimerCam.Timelapse.Attempt
import TimerCam.Timelapse.Names

/-!
# Timelapse.Report

What the log of a run tells about its uploads.

* `attemptReport_eq`     : what an attempt reports, whether it is dropped or makes an upload.
* `uploads_truthful_iff` : the reports are true exactly when no first POST is redirected.
-/

namespace TimerCam
namespace Timelapse

open Octets History

/-! ## What an attempt reports -/

/-- The events that tell about uploads. -/
def Ev.reported : Ev → Bool
  | .upload _ _ | .httpBegin _ | .httpAddHeader _ _ | .httpPost _ | .httpEnd => true
  | .serial line => line == text "Upload Success"
  | _ => false

def report (tr : List Ev) : List Ev := tr.filter Ev.reported

/-- What a call of `captureAndUploadImage` adds to the trace, as far as it tells about uploads. -/
def attemptReport (E : Env) (w : World) : List Ev :=
  report ((captureAndUploadImage E w).trace.drop w.trace.length)

theorem report_append (a b : List Ev) : report (a ++ b) = report a ++ report b :=
  List.filter_append ..

theorem report_quiet {new : List Ev} (h : ∀ e ∈ new, e.quiet) : report new = [] := by
  refine List.filter_eq_nil_iff.mpr fun e he => ?_
  have := h e he
  cases e <;> simp_all [Ev.reported, Ev.quiet]

theorem report_sendEvents (E : Env) (k : Nat) (url body : Bytes) :
    report (sendEvents E k url body) = sendEvents E k url body := by
  unfold sendEvents
  split
  · rfl
  · rfl

theorem report_successEvents (code : Int) : report (successEvents code) = successEvents code := by
  unfold successEvents
  split
  · rfl
  · rfl

theorem attemptReport_of {E : Env} {w : World} {new : List Ev} {t : Nat}
    (h : (captureAndUploadImage E w).trace =
      w.trace ++ .capture w.reads.tick :: (new ++ [.captured t])) :
    attemptReport E w = report new := by
  rw [attemptReport, h, List.drop_left, ← List.singleton_append, report_append, report_append]
  exact List.append_nil _

/-- An attempt that drops its picture reports nothing; an upload reports its POSTs, and success after
the last if that returned 200. -/
theorem attemptReport_eq (E : Env) (w : World) :
    (¬ ReachesUpload E w ∧ attemptReport E w = []) ∨
      (ReachesUpload E w ∧ ∃ fileName body, attemptReport E w =
        .upload fileName folderPath :: (sendEvents E w.posts GOOGLE_SCRIPT_URL body ++
          successEvents (lastCode E w.posts))) := by
  obtain ⟨up, new, htr, hup, hatt⟩ := captureAndUploadImage_cases E w
  rw [attemptReport_of htr]
  cases hatt with
  | dropped quiet => exact .inl ⟨fun h => absurd (hup.mpr h) (by simp), report_quiet quiet⟩
  | @uploaded before during fileName body h₁ h₂ =>
    refine .inr ⟨hup.mp rfl, fileName, body, ?_⟩
    rw [report_append, report_append, report_append, report_quiet h₁, report_sendEvents,
      report_successEvents, ← List.singleton_append, report_append, report_quiet h₂]
    rfl

/-! ## Truthful reports -/

def httpPosts (tr : List Ev) : List Bytes :=
  tr.filterMap fun
    | .httpPost body => some body
    | _ => none

def successLines (tr : List Ev) : Nat := tr.count (.serial (text "Upload Success"))

/-- The connection as a lease: opened by `http.begin`, closed by `http.end`, and needed between. -/
def connection (tr : List Ev) : List (Lease.Ev Unit) :=
  tr.filterMap fun
    | .httpBegin _ => some (.acquire (some ()))
    | .httpAddHeader _ _ | .httpPost _ => some (.touch (some ()))
    | .httpEnd => some (.release ())
    | _ => none

/-- What a call of `captureAndUploadImage` reports is true: an upload makes one POST, or two with one
body exactly when the first returned 302; there is one line of success if the last returned 200, and
else none; every connection is closed once, before the next is opened and before the call returns;
and without an upload there is neither a POST nor such a line. -/
structure Truthful (E : Env) (w : World) : Prop where
  single : (uploads (attemptReport E w)).length ≤ 1
  posts : uploads (attemptReport E w) ≠ [] → ∃ body, httpPosts (attemptReport E w) =
    List.replicate (if (E.post w.posts).code = 302 then 2 else 1) body
  success : uploads (attemptReport E w) ≠ [] →
    successLines (attemptReport E w) = if lastCode E w.posts = 200 then 1 else 0
  closed : Lease.Run none (connection (attemptReport E w)) none
  silent : uploads (attemptReport E w) = [] →
    httpPosts (attemptReport E w) = [] ∧ successLines (attemptReport E w) = 0

/-- The upload, if there is one, is not redirected. -/
def Direct (E : Env) (w : World) : Prop := ReachesUpload E w → (E.post w.posts).code ≠ 302

theorem Truthful.of_dropped {E : Env} {w : World} (h : attemptReport E w = []) : Truthful E w := by
  refine ⟨?_, ?_, ?_, ?_, fun _ => ?_⟩
  · simp [h, uploads]
  · simp [h, uploads]
  · simp [h, uploads]
  · rw [h]
    exact .nil
  · rw [h]
    exact ⟨rfl, rfl⟩

/-- With one upload reported, what is left is to look at its POSTs and lines. -/
theorem truthful_of_uploaded {E : Env} {w : World} {fileName : Bytes} {new : List Ev}
    (h : attemptReport E w = .upload fileName folderPath :: new) (hone : uploads new = []) :
    Truthful E w ↔ (∃ body, httpPosts new =
        List.replicate (if (E.post w.posts).code = 302 then 2 else 1) body) ∧
      (successLines new = if lastCode E w.posts = 200 then 1 else 0) ∧
      Lease.Run none (connection new) none := by
  have hup : uploads (attemptReport E w) = [fileName] := by
    rw [h, ← List.singleton_append, uploads_append, hone]
    rfl
  have hposts : httpPosts (attemptReport E w) = httpPosts new := by
    rw [h]
    rfl
  have hlines : successLines (attemptReport E w) = successLines new := by
    rw [h]
    rfl
  have hconn : connection (attemptReport E w) = connection new := by
    rw [h]
    rfl
  constructor
  · intro ht
    refine ⟨?_, ?_, ?_⟩
    · rw [← hposts]
      exact ht.posts (by simp [hup])
    · rw [← hlines]
      exact ht.success (by simp [hup])
    · rw [← hconn]
      exact ht.closed
  · rintro ⟨h₁, h₂, h₃⟩
    refine ⟨by simp [hup], fun _ => ?_, fun _ => ?_, ?_, fun hnone => ?_⟩
    · rwa [hposts]
    · rwa [hlines]
    · rwa [hconn]
    · rw [hup] at hnone
      cases hnone

theorem successLines_append (a b : List Ev) :
    successLines (a ++ b) = successLines a + successLines b :=
  List.count_append

theorem successLines_successEvents (code : Int) :
    successLines (successEvents code) = if code = 200 then 1 else 0 := by
  unfold successEvents
  split
  · exact List.count_singleton_self
  · rfl

/-- A direct reply: the line of success is that of `captureAndUploadImage`. -/
theorem Truthful.of_direct {E : Env} {w : World} {fileName body : Bytes}
    (h : attemptReport E w = .upload fileName folderPath ::
      (sendEvents E w.posts GOOGLE_SCRIPT_URL body ++ successEvents (lastCode E w.posts)))
    (hcode : (E.post w.posts).code ≠ 302) : Truthful E w := by
  have hsend : sendEvents E w.posts GOOGLE_SCRIPT_URL body =
      postEvents GOOGLE_SCRIPT_URL body ++ [.httpEnd] := by
    rw [sendEvents, if_neg hcode]
  rw [hsend] at h
  refine (truthful_of_uploaded h ?_).mpr ⟨⟨body, ?_⟩, ?_, ?_⟩
  · unfold successEvents
    split <;> rfl
  · rw [if_neg hcode]
    unfold successEvents
    split <;> rfl
  · rw [successLines_append, successLines_successEvents]
    exact Nat.zero_add _
  · have hconn : connection (postEvents GOOGLE_SCRIPT_URL body ++ [.httpEnd] ++
        successEvents (lastCode E w.posts)) =
        [.acquire (some ()), .touch (some ()), .touch (some ()), .release ()] := by
      unfold successEvents
      split <;> rfl
    rw [hconn]
    exact .acquire (.touch (.touch (.release .nil)))

/-- After a redirect there is a line of success before the second code is looked at. -/
theorem not_truthful_of_redirect {E : Env} {w : World} {fileName body : Bytes}
    (h : attemptReport E w = .upload fileName folderPath ::
      (sendEvents E w.posts GOOGLE_SCRIPT_URL body ++ successEvents (lastCode E w.posts)))
    (hcode : (E.post w.posts).code = 302) : ¬ Truthful E w := by
  intro ht
  have hup : uploads (attemptReport E w) ≠ [] := by
    rw [h, ← List.singleton_append, uploads_append]
    exact List.cons_ne_nil _ _
  have hlines : successLines (sendEvents E w.posts GOOGLE_SCRIPT_URL body) = 1 := by
    rw [sendEvents, if_pos hcode]
    rfl
  have hone := ht.success hup
  rw [h, ← List.singleton_append, successLines_append, successLines_append,
    successLines_successEvents, hlines] at hone
  omega

theorem truthful_iff (E : Env) (w : World) : Truthful E w ↔ Direct E w := by
  rcases attemptReport_eq E w with ⟨hno, h⟩ | ⟨hreach, fileName, body, h⟩
  · exact ⟨fun _ hreach => absurd hreach hno, fun _ => .of_dropped h⟩
  · constructor
    · intro ht _ hcode
      exact not_truthful_of_redirect h hcode ht
    · intro hd
      exact .of_direct h (hd hreach)

/-! ## Sequences of attempts, and runs -/

/-- Attempts one after the other, each in surroundings of its own. -/
def captures (Es : List Env) (w : World) : World :=
  Es.foldl (fun w E => captureAndUploadImage E w) w

theorem report_emit (w : World) {e : Ev} (h : e.reported = false) :
    report (w.emit e).trace = report w.trace := by
  have hnone : report [e] = [] := by simp [report, h]
  rw [World.emit, report_append, hnone, List.append_nil]

theorem report_aside {w w' : World} (h : Extends Ev.aside w w') :
    report w'.trace = report w.trace := by
  obtain ⟨⟨new, htr, hnew⟩, -, -⟩ := h
  have hnone : report new = [] := by
    refine List.filter_eq_nil_iff.mpr fun e he => ?_
    have := hnew e he
    cases e <;> simp_all [Ev.reported, Ev.aside]
  rw [htr, report_append, hnone, List.append_nil]

theorem report_capture (E : Env) (w : World) :
    report (captureAndUploadImage E w).trace = report w.trace ++ attemptReport E w := by
  obtain ⟨up, new, htr, -, -⟩ := captureAndUploadImage_cases E w
  rw [attemptReport, htr, List.drop_left, report_append]

/-- Only its attempt reports anything in a pass. -/
theorem report_loop (E : Env) (w : World) :
    report (loop E w).trace =
      report w.trace ++ (attempt? E w).toList.flatMap (attemptReport E) := by
  rw [← report_aside (maintainWiFi_aside E w)]
  rcases loop_cases E w with ⟨-, hatt, he⟩ | ⟨-, hatt, he⟩
  · rw [he, hatt, report_aside (waitAfter_aside _ _), afterAttempt, report_emit _ rfl,
      report_aside (getLocalTime_idles E _).aside]
    refine (report_capture E _).trans ?_
    rw [report_emit _ rfl, Option.toList_some, List.flatMap_singleton]
    rfl
  · rw [he, hatt, report_aside (waitAfter_aside _ _), report_emit _ rfl]
    exact (List.append_nil _).symm

theorem report_run (E : Env) (n : Nat) (w : World) :
    report (run E n w).trace = report w.trace ++ (attempts E n w).flatMap (attemptReport E) := by
  induction n with
  | zero => exact (List.append_nil _).symm
  | succ n ih =>
    rw [run_succ, report_loop, ih, attempts_succ, List.flatMap_append, List.append_assoc]

/-- In every sequence of attempts the reports are true exactly when no upload is answered 302 at
first. A run reports what its attempts report and nothing else, and so the same holds of runs. -/
theorem uploads_truthful_iff (Es : List Env) (E : Env) (n : Nat) (w : World) :
    (Each (fun pre E => Truthful E (captures pre w)) Es ↔
        Each (fun pre E => Direct E (captures pre w)) Es) ∧
      report (run E n w).trace = report w.trace ++ (attempts E n w).flatMap (attemptReport E) ∧
      ((∀ a ∈ attempts E n w, Truthful E a) ↔ ∀ a ∈ attempts E n w, Direct E a) := by
  refine ⟨?_, report_run E n w, ?_⟩
  · constructor
    · intro h pre E post he
      exact (truthful_iff E _).mp (h pre E post he)
    · intro h pre E post he
      exact (truthful_iff E _).mpr (h pre E post he)
  · constructor
    · intro h a ha
      exact (truthful_iff E a).mp (h a ha)
    · intro h a ha
      exact (truthful_iff E a).mpr (h a ha)

/-- Every frame has 1024 octets, the first POST is redirected, and the second fails. -/
def redirectEnv : Env :=
  { noonEnv with
    camera := fun _ => some (List.replicate 1024 0)
    post := fun k => if k = 0 then ⟨302, text "https://script.googleusercontent.com/echo"⟩
      else ⟨500, []⟩ }

theorem failure_reported_as_success :
    uploads (attemptReport redirectEnv {}) ≠ [] ∧ lastCode redirectEnv 0 = 500 ∧
      successLines (attemptReport redirectEnv {}) = 1 ∧
      ¬ Each (fun pre E => Truthful E (captures pre {})) [redirectEnv] := by
  have hreach : ReachesUpload redirectEnv {} :=
    ⟨fun _ _ => rfl, List.replicate 1024 0, rfl, Nat.le_of_eq List.length_replicate.symm⟩
  have hcode : (redirectEnv.post 0).code = 302 := rfl
  rcases attemptReport_eq redirectEnv {} with ⟨hno, -⟩ | ⟨-, fileName, body, h⟩
  · exact absurd hreach hno
  · refine ⟨?_, rfl, ?_, fun htrue => ?_⟩
    · rw [h]
      exact List.cons_ne_nil _ _
    · rw [h]
      rfl
    · exact not_truthful_of_redirect h hcode (htrue [] redirectEnv [] rfl)

end Timelapse
end TimerCam

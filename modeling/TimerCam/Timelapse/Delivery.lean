import TimerCam.Timelapse.Announce
import TimerCam.Timelapse.Body
import TimerCam.Timelapse.Schedule
import TimerCam.Timelapse.Report

/-!
# Timelapse.Delivery

What the server gets over a run, with memory for every append.

* `picture?`     : the picture that an attempt uploads, if it does.
* `run_delivers` : the bodies posted are those of the pictures, one attempt for each captured minute,
  and each is read back as its picture.
-/

namespace TimerCam
namespace Timelapse

open Octets

/-! ## Pictures -/

/-- A picture as it is sent: its name, its octets, and in how many POSTs. -/
structure Picture where
  fileName : Bytes
  image : Bytes
  posts : Nat
deriving DecidableEq

def Picture.body (p : Picture) : Bytes := fullBody p.fileName folderPath p.image

def Picture.bodies (p : Picture) : List Bytes := List.replicate p.posts p.body

/-- What `uploadFrame` sends of the frame `fb`. -/
def pictureOf (E : Env) (fb : Frame) (w : World) : Option Picture :=
  if fb.len < 1024 then none
  else some ⟨(nameFor E fb w).1.getD (E.stale w.reads.tick), fb.buf, postCount E w.posts⟩

def pictureAfter (E : Env) (r : Bool × World) : Option Picture :=
  if r.1 then r.2.cam.fb.bind fun fb => pictureOf E fb r.2 else none

/-- What a call of `captureAndUploadImage` sends. -/
def picture? (E : Env) (a : World) : Option Picture :=
  pictureAfter E (warmUpFrames E (a.emit (.capture a.reads.tick)))

/-- What is reported of the picture `p` when its first POST is number `k`. -/
def pictureEvents (E : Env) (k : Nat) (p : Picture) : List Ev :=
  .upload p.fileName folderPath ::
    (sendEvents E k GOOGLE_SCRIPT_URL p.body ++ successEvents (lastCode E k))

/-- The local year has four digits, as the buffer of `getTimestampFilename` needs. -/
def FourDigits (E : Env) : Prop := ∀ k, (localtime (E.time k)).tm_year + 1900 < 10000

theorem getTimestampFilename_some {E : Env} (hyear : FourDigits E) (w : World) :
    ∃ name, (getTimestampFilename E w).1 = some name := by
  simp only [getTimestampFilename]
  rw [getLocalTime_look, strftime_eq (hyear _)]
  cases (getLocalTime E w).1.1 with
  | true => exact ⟨_, rfl⟩
  | false => exact ⟨_, rfl⟩

theorem nameFor_plain {E : Env} (hyear : FourDigits E) (fb : Frame) (w : World) (stale : Bytes) :
    (nameFor E fb w).1.getD stale ≠ [] ∧ Plain ((nameFor E fb w).1.getD stale) := by
  obtain ⟨name, hname⟩ := getTimestampFilename_some hyear ((w.read (some fb)).read (some fb))
  rw [nameFor, hname, Option.getD_some]
  exact getTimestampFilename_plain hname

/-! ## One attempt -/

theorem report_idles {w w' : World} (h : Idles w w') : report w'.trace = report w.trace :=
  report_aside h.aside

theorem report_emit_reported (w : World) {e : Ev} (h : e.reported = true) :
    report (w.emit e).trace = report w.trace ++ [e] := by
  have hone : report [e] = [e] := by simp [report, h]
  rw [World.emit, report_append, hone]

theorem upload_report {E : Env} (hheap : ∀ k, E.heap k = true) (fb : Frame) {fileName : Bytes}
    (hname : fileName ≠ []) (w : World) :
    report (uploadToGoogleDrive E fb fileName folderPath w).2.trace = report w.trace ++
        .upload fileName folderPath ::
          sendEvents E w.posts GOOGLE_SCRIPT_URL (fullBody fileName folderPath fb.buf) ∧
      (uploadToGoogleDrive E fb fileName folderPath w).1 = (lastCode E w.posts == 200) := by
  obtain ⟨w', hidle, -, he⟩ := upload_trace E fb fileName folderPath w
  have hbody : postedBody E fb fileName folderPath w = fullBody fileName folderPath fb.buf :=
    (postedBody_iff E fb hname folderPath_ne_nil w).mpr fun k _ _ => hheap k
  have hposts : w'.posts = w.posts := hidle.posts
  rw [he, sendPostData_result, hposts]
  refine ⟨?_, rfl⟩
  rw [sendPostData_trace, report_append, report_sendEvents, report_idles hidle,
    report_emit_reported _ rfl, hbody, hposts, List.append_assoc]
  rfl

/-- A frame that is long enough is reported as its picture, and else nothing is. -/
theorem uploadFrame_report {E : Env} (hheap : ∀ k, E.heap k = true) (hyear : FourDigits E)
    (fb : Frame) (w : World) :
    report (uploadFrame E fb w).trace =
      report w.trace ++ (pictureOf E fb w).toList.flatMap (pictureEvents E w.posts) := by
  simp only [uploadFrame, pictureOf]
  by_cases hlen : fb.len < 1024
  · have hline : Ev.reported (.serial (text "Image too small, skipping upload")) = false := by
      decide +kernel
    rw [if_pos hlen, if_pos hlen, Option.toList_none, List.flatMap_nil, List.append_nil]
    exact report_emit _ hline
  · rw [if_neg hlen, if_neg hlen, Option.toList_some, List.flatMap_singleton]
    let name := (nameFor E fb w).1.getD (E.stale w.reads.tick)
    let w₁ := (nameFor E fb w).2
    have hidle : Idles w w₁ := nameFor_idles E fb w
    obtain ⟨hup, hres⟩ := upload_report hheap fb (nameFor_plain hyear fb w (E.stale w.reads.tick)).1
      w₁
    rw [hidle.posts] at hres hup
    rw [report_idles hidle] at hup
    have hlast : report (if (uploadToGoogleDrive E fb name folderPath w₁).1 then
        (uploadToGoogleDrive E fb name folderPath w₁).2.emit (.serial (text "Upload Success"))
        else (uploadToGoogleDrive E fb name folderPath w₁).2).trace =
        report (uploadToGoogleDrive E fb name folderPath w₁).2.trace ++
          successEvents (lastCode E w.posts) := by
      rw [hres, successEvents]
      by_cases hcode : lastCode E w.posts = 200
      · rw [if_pos (by simpa using hcode), if_pos hcode]
        exact report_emit_reported _ (by decide +kernel)
      · rw [if_neg (by simpa using hcode), if_neg hcode, List.append_nil]
    refine hlast.trans ?_
    rw [hup, List.append_assoc]
    rfl

theorem attemptReport_picture {E : Env} (hheap : ∀ k, E.heap k = true) (hyear : FourDigits E)
    (a : World) :
    attemptReport E a = (picture? E a).toList.flatMap (pictureEvents E a.posts) := by
  let w₀ := a.emit (.capture a.reads.tick)
  have hwarm : Idles w₀ (warmUpFrames E w₀).2 := warmUp_idles E 10 w₀
  have hstart : report (warmUpFrames E w₀).2.trace = report a.trace :=
    (report_idles hwarm).trans (report_emit _ rfl)
  have hposts : (warmUpFrames E w₀).2.posts = a.posts := hwarm.posts
  have hend : report (captureAndUploadImage E a).trace =
      report (afterWarmUp E (warmUpFrames E w₀)).trace := report_emit _ rfl
  rw [report_capture] at hend
  refine List.append_cancel_left (hend.trans ?_)
  have hpic : picture? E a = pictureAfter E (warmUpFrames E w₀) := rfl
  rw [hpic, afterWarmUp, pictureAfter]
  cases hr : (warmUpFrames E w₀).1 with
  | false =>
    rw [if_neg (by simp), if_neg (by simp), report_emit _ (by decide +kernel), hstart]
    exact (List.append_nil _).symm
  | true =>
    rw [if_pos rfl, if_pos rfl]
    cases hfb : (warmUpFrames E w₀).2.cam.fb with
    | none => exact hstart.trans (List.append_nil _).symm
    | some fb =>
      rw [Option.bind_some, ← hstart, ← hposts]
      exact uploadFrame_report hheap hyear fb _

/-! ## Which picture it is -/

theorem pictureAfter_iff {E : Env} {r : Bool × World} {p : Picture} :
    pictureAfter E r = some p ↔
      r.1 = true ∧ ∃ fb, r.2.cam.fb = some fb ∧ pictureOf E fb r.2 = some p := by
  unfold pictureAfter
  cases r.1 with
  | false => simp
  | true => simp [Option.bind_eq_some_iff]

theorem pictureOf_iff {E : Env} {fb : Frame} {w : World} {p : Picture} :
    pictureOf E fb w = some p ↔ 1024 ≤ fb.len ∧
      p = ⟨(nameFor E fb w).1.getD (E.stale w.reads.tick), fb.buf, postCount E w.posts⟩ := by
  unfold pictureOf
  by_cases hlen : fb.len < 1024
  · rw [if_pos hlen]
    exact ⟨fun h => (by cases h), fun h => absurd h.1 (by omega)⟩
  · rw [if_neg hlen, Option.some.injEq]
    exact ⟨fun h => ⟨Nat.not_lt.mp hlen, h.symm⟩, fun h => h.2.symm⟩

/-- The picture is the tenth frame that the camera gives, in one POST or in two. -/
theorem picture?_spec {E : Env} (hyear : FourDigits E) {a : World} {p : Picture}
    (h : picture? E a = some p) :
    (∀ i < 10, (E.camera (a.cam.grabs + i)).isSome) ∧ E.camera (a.cam.grabs + 9) = some p.image ∧
      1024 ≤ p.image.length ∧ p.posts = postCount E a.posts ∧
      Carries p.body p.fileName folderPath p.image := by
  let w₀ := a.emit (.capture a.reads.tick)
  obtain ⟨hr, fb, hfb, hof⟩ := pictureAfter_iff.mp h
  obtain ⟨hlen, rfl⟩ := pictureOf_iff.mp hof
  obtain ⟨h₁, h₂⟩ := warmUp_frames E 9 w₀
  obtain ⟨buf, hbuf, rfl⟩ := Option.map_eq_some_iff.mp ((h₂ hr).symm.trans hfb)
  have hposts : (warmUpFrames E w₀).2.posts = a.posts := (warmUp_idles E 10 w₀).posts
  refine ⟨h₁.mp hr, hbuf, hlen, congrArg (postCount E) hposts, ?_⟩
  exact fullBody_carries (nameFor_plain hyear _ _ _).2 plain_folderPath buf

theorem picture?_isSome_iff (E : Env) (a : World) :
    (picture? E a).isSome ↔ ReachesUpload E a := by
  have hreach : _ ↔ ReachesUpload E a := warmUpFrames_reaches E (a.emit (.capture a.reads.tick))
  rw [← hreach, Option.isSome_iff_exists]
  constructor
  · rintro ⟨p, hp⟩
    obtain ⟨hr, fb, hfb, hof⟩ := pictureAfter_iff.mp hp
    exact ⟨hr, fb, hfb, (pictureOf_iff.mp hof).1⟩
  · rintro ⟨hr, fb, hfb, hlen⟩
    exact ⟨_, pictureAfter_iff.mpr ⟨hr, fb, hfb, pictureOf_iff.mpr ⟨hlen, rfl⟩⟩⟩

/-! ## A run -/

theorem httpPosts_append (a b : List Ev) : httpPosts (a ++ b) = httpPosts a ++ httpPosts b :=
  List.filterMap_append

/-- A view of what is reported sees the same in the report. -/
theorem filterMap_report {β : Type} {f : Ev → Option β} (hf : ∀ e, e.reported = false → f e = none)
    (tr : List Ev) : (report tr).filterMap f = tr.filterMap f := by
  induction tr with
  | nil => rfl
  | cons e tr ih =>
    cases he : e.reported with
    | true => rw [report, List.filter_cons_of_pos he, List.filterMap_cons, List.filterMap_cons,
        ← ih, report]
    | false => rw [report, List.filter_cons_of_neg (by simp [he]), List.filterMap_cons, hf e he,
        ← ih, report]

theorem httpPosts_report (tr : List Ev) : httpPosts (report tr) = httpPosts tr :=
  filterMap_report (fun e he => by cases e <;> first | rfl | cases he) tr

theorem uploads_report (tr : List Ev) : uploads (report tr) = uploads tr :=
  filterMap_report (fun e he => by cases e <;> first | rfl | cases he) tr

theorem httpPosts_successEvents (code : Int) : httpPosts (successEvents code) = [] := by
  unfold successEvents
  split <;> rfl

theorem uploads_successEvents (code : Int) : uploads (successEvents code) = [] := by
  unfold successEvents
  split <;> rfl

theorem httpPosts_sendEvents (E : Env) (k : Nat) (url body : Bytes) :
    httpPosts (sendEvents E k url body) = List.replicate (postCount E k) body := by
  unfold sendEvents postCount
  split <;> rfl

theorem uploads_sendEvents (E : Env) (k : Nat) (url body : Bytes) :
    uploads (sendEvents E k url body) = [] := by
  unfold sendEvents
  split <;> rfl

theorem pictureEvents_posts (E : Env) {k : Nat} {p : Picture} (h : p.posts = postCount E k) :
    httpPosts (pictureEvents E k p) = p.bodies := by
  rw [pictureEvents, ← List.singleton_append, httpPosts_append, httpPosts_append,
    httpPosts_sendEvents, httpPosts_successEvents, Picture.bodies, h, List.append_nil]
  rfl

theorem pictureEvents_uploads (E : Env) (k : Nat) (p : Picture) :
    uploads (pictureEvents E k p) = [p.fileName] := by
  rw [pictureEvents, ← List.singleton_append, uploads_append, uploads_append,
    uploads_sendEvents, uploads_successEvents]
  rfl

/-- The pictures of the first `n` passes. -/
def pictures (E : Env) (n : Nat) (w : World) : List Picture :=
  (attempts E n w).filterMap (picture? E)

section Delivered

variable {E : Env} (hheap : ∀ k, E.heap k = true) (hyear : FourDigits E)
include hheap hyear

theorem attempt_posts (a : World) :
    httpPosts (attemptReport E a) = (picture? E a).toList.flatMap Picture.bodies := by
  rw [attemptReport_picture hheap hyear]
  cases hp : picture? E a with
  | none => rfl
  | some p =>
    rw [Option.toList_some, List.flatMap_singleton, List.flatMap_singleton]
    exact pictureEvents_posts E (picture?_spec hyear hp).2.2.2.1

theorem attempt_uploads (a : World) :
    uploads (attemptReport E a) = (picture? E a).toList.map Picture.fileName := by
  rw [attemptReport_picture hheap hyear]
  cases picture? E a with
  | none => rfl
  | some p =>
    rw [Option.toList_some, List.flatMap_singleton]
    exact pictureEvents_uploads E a.posts p

theorem attempts_posts (as : List World) :
    httpPosts (as.flatMap (attemptReport E)) =
      (as.filterMap (picture? E)).flatMap Picture.bodies := by
  induction as with
  | nil => rfl
  | cons a as ih =>
    rw [List.flatMap_cons, httpPosts_append, ih, attempt_posts hheap hyear, List.filterMap_cons]
    cases picture? E a with
    | none => rfl
    | some p => rw [Option.toList_some, List.flatMap_singleton, List.flatMap_cons]

theorem attempts_uploads (as : List World) :
    uploads (as.flatMap (attemptReport E)) =
      (as.filterMap (picture? E)).map Picture.fileName := by
  induction as with
  | nil => rfl
  | cons a as ih =>
    rw [List.flatMap_cons, uploads_append, ih, attempt_uploads hheap hyear, List.filterMap_cons]
    cases picture? E a with
    | none => rfl
    | some p => rfl

end Delivered

/-! ## The minutes of the attempts -/

/-- The minute of the reading that led to the attempt `a`. -/
def attemptMinute (E : Env) (a : World) : Int := (E.time (a.reads.tick - 1) : Int) / 60

theorem captured_append (a b : List (Int × Bool)) : captured (a ++ b) = captured a ++ captured b := by
  simp [captured]

theorem setup_silent {E : Env} {fuel : Nat} {w : World} (h : setup E fuel {} = some w) :
    report w.trace = [] := by
  simp only [setup] at h
  split at h
  · cases h
  · rename_i reads _
    simp only [initializeTime, Option.map_eq_some_iff] at h
    obtain ⟨w₁, hsync, rfl⟩ := h
    rw [report_emit _ rfl, report_idles (getLocalTime_idles E _)]
    exact (report_emit _ rfl).trans (report_idles (syncLoop_idles E fuel _ hsync))

theorem captured_loop (E : Env) (w : World) : captured (readings (loop E w).trace) =
    captured (readings w.trace) ++ (attempt? E w).toList.map (attemptMinute E) := by
  rw [readings_loop, captured_append]
  rcases loop_cases E w with ⟨-, hatt, -⟩ | ⟨-, hatt, -⟩
  · rw [hatt]
    rfl
  · rw [hatt]
    rfl

theorem captured_run (E : Env) (n : Nat) (w : World) : captured (readings (run E n w).trace) =
    captured (readings w.trace) ++ (attempts E n w).map (attemptMinute E) := by
  induction n with
  | zero => exact (List.append_nil _).symm
  | succ n ih =>
    rw [run_succ, captured_loop, ih, attempts_succ, List.map_append, List.append_assoc]

/-- In every run with memory for every append the server gets the pictures and nothing else, in order:
each under its name, each in one body, which is read back as the name, the folder and the image. The
pictures are the tenth frames of the attempts whose frames all arrive, with 1024 octets or more in
that, and there is one attempt for each captured minute. -/
theorem run_delivers {E : Env} {fuel : Nat} {w : World} (h : setup E fuel {} = some w)
    (hheap : ∀ k, E.heap k = true) (hyear : FourDigits E) (n : Nat) :
    httpPosts (run E n w).trace = (pictures E n w).flatMap Picture.bodies ∧
      uploads (run E n w).trace = (pictures E n w).map Picture.fileName ∧
      captured (readings (run E n w).trace) = (attempts E n w).map (attemptMinute E) ∧
      (∀ a ∈ attempts E n w, (picture? E a).isSome ↔ ReachesUpload E a) ∧
      ∀ a ∈ attempts E n w, ∀ p, picture? E a = some p →
        E.camera (a.cam.grabs + 9) = some p.image ∧ p.posts = postCount E a.posts ∧
          Carries p.body p.fileName folderPath p.image := by
  have hreport := setup_silent h
  obtain ⟨-, -, hread, -⟩ := setup_inv h
  have hrun := report_run E n w
  rw [hreport, List.nil_append] at hrun
  refine ⟨?_, ?_, ?_, fun a _ => picture?_isSome_iff E a, fun a _ p hp => ?_⟩
  · rw [← httpPosts_report, hrun, attempts_posts hheap hyear, pictures]
  · rw [← uploads_report, hrun, attempts_uploads hheap hyear, pictures]
  · rw [captured_run, hread]
    rfl
  · obtain ⟨-, hframe, -, hposts, hcarries⟩ := picture?_spec hyear hp
    exact ⟨hframe, hposts, hcarries⟩

theorem minuteEnv_fourDigits : FourDigits minuteEnv := by
  intro k
  rw [minuteEnv_year]
  decide

theorem run_delivers_minute :
    httpPosts (run minuteEnv 2 minuteWorld).trace =
        (pictures minuteEnv 2 minuteWorld).flatMap Picture.bodies ∧
      uploads (run minuteEnv 2 minuteWorld).trace =
        (pictures minuteEnv 2 minuteWorld).map Picture.fileName ∧
      captured (readings (run minuteEnv 2 minuteWorld).trace) =
        (attempts minuteEnv 2 minuteWorld).map (attemptMinute minuteEnv) ∧
      (∀ a ∈ attempts minuteEnv 2 minuteWorld,
        (picture? minuteEnv a).isSome ↔ ReachesUpload minuteEnv a) ∧
      ∀ a ∈ attempts minuteEnv 2 minuteWorld, ∀ p, picture? minuteEnv a = some p →
        minuteEnv.camera (a.cam.grabs + 9) = some p.image ∧
          p.posts = postCount minuteEnv a.posts ∧
          Carries p.body p.fileName folderPath p.image :=
  run_delivers setup_minute (fun _ => rfl) minuteEnv_fourDigits 2

end Timelapse
end TimerCam

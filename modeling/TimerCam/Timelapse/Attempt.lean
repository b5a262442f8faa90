import TimerCam.Timelapse.Sketch

/-!
# Timelapse.Attempt

A call of `captureAndUploadImage` from end to end, and the pass of `loop` around it.

* `captureAndUploadImage_cases` : an attempt is dropped, or makes one upload.
* `loop_cases`                  : a pass makes an attempt if its reading is due, and then waits.
-/

namespace TimerCam
namespace Timelapse

open Octets

/-! ## The warm-up -/

/-- The ten captures of the warm-up get their frames, and the last is large enough. -/
def ReachesUpload (E : Env) (w : World) : Prop :=
  (∀ i < 10, (E.camera (w.cam.grabs + i)).isSome) ∧
    ∃ buf, E.camera (w.cam.grabs + 9) = some buf ∧ 1024 ≤ buf.length

theorem warmUp_frames (E : Env) (n : Nat) (w : World) :
    let r := warmUp (World.get E) (·.cam.fb.isSome) (fun w => w.free.delay 200) (n + 1) w
    (r.1 = true ↔ ∀ i < n + 1, (E.camera (w.cam.grabs + i)).isSome) ∧
      (r.1 = true → r.2.cam.fb =
        (E.camera (w.cam.grabs + n)).map (Frame.mk (w.cam.grabs + n))) := by
  have hgot : ∀ w : World, (w.get E).cam.fb.isSome = (E.camera w.cam.grabs).isSome := by
    intro w
    exact Option.isSome_map
  induction n generalizing w with
  | zero =>
    simp only [warmUp, if_true, hgot]
    cases hg : (E.camera w.cam.grabs).isSome with
    | true => exact ⟨by simpa using hg, fun _ => rfl⟩
    | false => exact ⟨by simpa using hg, fun h => by simp at h⟩
  | succ n ih =>
    rw [warmUp]
    simp only [hgot, Nat.add_one_ne_zero, if_false]
    cases hg : (E.camera w.cam.grabs).isSome with
    | true =>
      obtain ⟨h₁, h₂⟩ := ih ((w.get E).free.delay 200)
      have hgrabs : ((w.get E).free.delay 200).cam.grabs = w.cam.grabs + 1 :=
        Camera.free_grabs (w.cam.get E.camera)
      rw [hgrabs] at h₁ h₂
      simp only [if_true]
      refine ⟨h₁.trans ⟨fun h i hi => ?_, fun h i hi => ?_⟩, fun h => ?_⟩
      · cases i with
        | zero => exact hg
        | succ i =>
          have := h i (by omega)
          rwa [Nat.add_assoc, Nat.add_comm 1 i] at this
      · rw [Nat.add_assoc, Nat.add_comm 1 i]
        exact h (i + 1) (by omega)
      · rw [h₂ h, Nat.add_assoc, Nat.add_comm 1 n]
    | false =>
      refine ⟨⟨fun h => by simp at h, fun h => ?_⟩, fun h => by simp at h⟩
      have := h 0 (by omega)
      rw [Nat.add_zero, hg] at this
      cases this

/-! ## An attempt -/

/-- An event that tells nothing about an upload. -/
def Ev.quiet : Ev → Prop
  | .delay _ _ | .progress _ _ => True
  | .serial line => line ≠ text "Upload Success"
  | _ => False

theorem Ev.idle.quiet {e : Ev} (h : e.idle) : e.quiet := by
  cases e <;> trivial

/-- What an attempt logs after its upload. -/
def successEvents (code : Int) : List Ev :=
  if code = 200 then [.serial (text "Upload Success")] else []

/-- What an attempt logs between its call and its return, when the next POST is number `k`. -/
inductive Attempt (E : Env) (k : Nat) : Bool → List Ev → Prop where
  | dropped {new : List Ev} (quiet : ∀ e ∈ new, e.quiet) : Attempt E k false new
  | uploaded {before during : List Ev} {fileName body : Bytes}
      (h₁ : ∀ e ∈ before, e.quiet) (h₂ : ∀ e ∈ during, e.quiet) :
      Attempt E k true (before ++ .upload fileName folderPath :: during ++
        sendEvents E k GOOGLE_SCRIPT_URL body ++ successEvents (lastCode E k))

/-- An event that may stand between the call of `captureAndUploadImage` and its return. -/
def Ev.inCapture : Ev → Prop
  | .delay _ _ | .progress _ _ | .serial _ | .upload _ _ => True
  | .httpBegin _ | .httpAddHeader _ _ | .httpPost _ | .httpEnd => True
  | _ => False

theorem Ev.quiet.inCapture {e : Ev} (h : e.quiet) : e.inCapture := by
  cases e <;> trivial

theorem Attempt.inCapture {E : Env} {k : Nat} {up : Bool} {new : List Ev}
    (h : Attempt E k up new) : ∀ e ∈ new, e.inCapture := by
  cases h with
  | dropped quiet => exact fun e he => (quiet e he).inCapture
  | @uploaded before during fileName body h₁ h₂ =>
    have hsend : ∀ e ∈ sendEvents E k GOOGLE_SCRIPT_URL body, e.inCapture := by
      unfold sendEvents
      split
      · simp [postEvents, Ev.inCapture]
      · simp [postEvents, Ev.inCapture]
    have hsuccess : ∀ e ∈ successEvents (lastCode E k), e.inCapture := by
      unfold successEvents
      split
      · simp [Ev.inCapture]
      · simp
    simp only [List.forall_mem_append, List.forall_mem_cons]
    exact ⟨⟨⟨fun e he => (h₁ e he).inCapture, trivial, fun e he => (h₂ e he).inCapture⟩, hsend⟩,
      hsuccess⟩

theorem Attempt.quiet_append {E : Env} {k : Nat} {up : Bool} {a new : List Ev}
    (h : Attempt E k up new) (ha : ∀ e ∈ a, e.quiet) : Attempt E k up (a ++ new) := by
  have happend : ∀ {b : List Ev}, (∀ e ∈ b, e.quiet) → ∀ e ∈ a ++ b, e.quiet := by
    intro b hb e he
    exact (List.mem_append.mp he).elim (ha e) (hb e)
  cases h with
  | dropped quiet => exact .dropped (happend quiet)
  | uploaded h₁ h₂ =>
    rw [← List.append_assoc, ← List.append_assoc, ← List.append_assoc]
    exact .uploaded (happend h₁) h₂

theorem uploadFrame_attempt (E : Env) (fb : Frame) (w : World) :
    ∃ new, (uploadFrame E fb w).trace = w.trace ++ new ∧
      Attempt E w.posts (decide (1024 ≤ fb.len)) new := by
  have hquiet : ∀ {new : List Ev}, (∀ e ∈ new, e.idle) → ∀ e ∈ new, e.quiet :=
    fun h e he => (h e he).quiet
  simp only [uploadFrame]
  by_cases hlen : fb.len < 1024
  · rw [if_pos hlen, decide_eq_false (by omega)]
    have hline : text "Image too small, skipping upload" ≠ text "Upload Success" := by
      decide +kernel
    exact ⟨[.serial (text "Image too small, skipping upload")], rfl,
      .dropped (by simpa [Ev.quiet] using hline)⟩
  · rw [if_neg hlen, decide_eq_true (by omega)]
    let name := (nameFor E fb w).1.getD (E.stale w.reads.tick)
    let w₁ := (nameFor E fb w).2
    have hname := nameFor_idles E fb w
    obtain ⟨before, htr₁, hbefore⟩ := hname.trace
    obtain ⟨w₂, hloop, -, he⟩ := upload_trace E fb name folderPath w₁
    obtain ⟨during, htr₂, hduring⟩ := hloop.trace
    have hposts : w₂.posts = w.posts := hloop.posts.trans hname.posts
    let body := postedBody E fb name folderPath w₁
    have hr : uploadToGoogleDrive E fb name folderPath w₁ =
        sendPostData E GOOGLE_SCRIPT_URL body w₂ := he
    have hup : (sendPostData E GOOGLE_SCRIPT_URL body w₂).2.trace = w.trace ++ (before ++
        .upload name folderPath :: during ++ sendEvents E w.posts GOOGLE_SCRIPT_URL body) := by
      rw [sendPostData_trace, hposts, htr₂]
      simp [World.emit, w₁, htr₁]
    have hend : (if (uploadToGoogleDrive E fb name folderPath w₁).1 = true then
        (uploadToGoogleDrive E fb name folderPath w₁).2.emit (.serial (text "Upload Success"))
        else (uploadToGoogleDrive E fb name folderPath w₁).2).trace =
      w.trace ++ (before ++ .upload name folderPath :: during ++
        sendEvents E w.posts GOOGLE_SCRIPT_URL body ++ successEvents (lastCode E w.posts)) := by
      rw [hr, sendPostData_result, hposts, successEvents, ← List.append_assoc, ← hup]
      by_cases hcode : lastCode E w.posts = 200
      · rw [if_pos (by simpa using hcode), if_pos hcode]
        rfl
      · rw [if_neg (by simpa using hcode), if_neg hcode, List.append_nil]
    exact ⟨_, hend, .uploaded (hquiet hbefore) (hquiet hduring)⟩

theorem warmUpFrames_reaches (E : Env) (w : World) :
    ((warmUpFrames E w).1 = true ∧ ∃ fb, (warmUpFrames E w).2.cam.fb = some fb ∧ 1024 ≤ fb.len) ↔
      ReachesUpload E w := by
  obtain ⟨h₁, h₂⟩ := warmUp_frames E 9 w
  constructor
  · rintro ⟨hr, fb, hfb, hlen⟩
    have hframe := (h₂ hr).symm.trans hfb
    obtain ⟨buf, hbuf, rfl⟩ := Option.map_eq_some_iff.mp hframe
    exact ⟨h₁.mp hr, buf, hbuf, hlen⟩
  · rintro ⟨hall, buf, hbuf, hlen⟩
    have hr := h₁.mpr hall
    refine ⟨hr, ⟨w.cam.grabs + 9, buf⟩, ?_, hlen⟩
    exact (h₂ hr).trans (by rw [hbuf]; rfl)

/-- Between its call and its return an attempt is dropped, or makes one upload; which of the two is
up to the camera. -/
theorem captureAndUploadImage_cases (E : Env) (w : World) :
    ∃ (up : Bool) (new : List Ev), (captureAndUploadImage E w).trace = w.trace ++
        .capture w.reads.tick :: (new ++ [.captured (captureAndUploadImage E w).reads.tick]) ∧
      (up = true ↔ ReachesUpload E w) ∧ Attempt E w.posts up new := by
  let w₀ := w.emit (.capture w.reads.tick)
  have hwarm : Idles w₀ (warmUpFrames E w₀).2 := warmUp_idles E 10 w₀
  obtain ⟨new₁, htr₁, hnew₁⟩ := hwarm.trace
  have hposts : (warmUpFrames E w₀).2.posts = w.posts := hwarm.posts
  have hreach : _ ↔ ReachesUpload E w := warmUpFrames_reaches E w₀
  suffices h : ∃ up new, (afterWarmUp E (warmUpFrames E w₀)).trace =
      (warmUpFrames E w₀).2.trace ++ new ∧ (up = true ↔ ReachesUpload E w) ∧
      Attempt E w.posts up new by
    obtain ⟨up, new, htr, hup, hatt⟩ := h
    refine ⟨up, new₁ ++ new, ?_, hup, hatt.quiet_append fun e he => (hnew₁ e he).quiet⟩
    have hend : (captureAndUploadImage E w).trace = (afterWarmUp E (warmUpFrames E w₀)).trace ++
        [.captured (captureAndUploadImage E w).reads.tick] := rfl
    rw [hend, htr, htr₁]
    simp [w₀, World.emit]
  unfold afterWarmUp
  cases hr : (warmUpFrames E w₀).1 with
  | false =>
    have hline : text "Capture Failed" ≠ text "Upload Success" := by decide +kernel
    refine ⟨false, [.serial (text "Capture Failed")], rfl, ?_,
      .dropped (by simpa [Ev.quiet] using hline)⟩
    rw [← hreach, hr]
    simp
  | true =>
    cases hfb : (warmUpFrames E w₀).2.cam.fb with
    | none =>
      refine ⟨false, [], (List.append_nil _).symm, ?_, .dropped (by simp)⟩
      rw [← hreach, hfb]
      simp
    | some fb =>
      obtain ⟨new, htr, hatt⟩ := uploadFrame_attempt E fb (warmUpFrames E w₀).2
      rw [hposts] at hatt
      refine ⟨_, new, htr, ?_, hatt⟩
      rw [← hreach, hfb, hr]
      simp

/-- A view that shows nothing of what stands between the call and the return. -/
theorem captureAndUploadImage_view {β : Type} {f : Ev → Option β}
    (hf : ∀ e, e.inCapture → f e = none) (E : Env) (w : World) :
    (captureAndUploadImage E w).trace.filterMap f =
      w.trace.filterMap f ++ [Ev.capture w.reads.tick,
        .captured (captureAndUploadImage E w).reads.tick].filterMap f := by
  obtain ⟨up, new, htr, -, hatt⟩ := captureAndUploadImage_cases E w
  have hnew : new.filterMap f = [] := filterMap_eq_nil hf hatt.inCapture
  rw [htr, List.filterMap_append, ← List.singleton_append, List.filterMap_append,
    List.filterMap_append, hnew, List.nil_append, ← List.filterMap_append]
  rfl

/-! ## The passes of a run -/

/-- What a pass adds to the trace around its reading, its attempt and its announcement. -/
def Ev.aside : Ev → Prop
  | .delay _ _ | .progress _ _ | .reconnect | .waiting _ _ => True
  | _ => False

theorem Idles.aside {w w' : World} (h : Idles w w') : Extends Ev.aside w w' := by
  refine h.toExtends.imp fun e he => ?_
  cases e <;> trivial

theorem maintainWiFi_aside (E : Env) (w : World) : Extends Ev.aside w (maintainWiFi E w) :=
  maintainWiFi_extends trivial (fun _ _ => trivial) E w

theorem waitAfter_aside (t : Int) (w : World) : Extends Ev.aside w (waitAfter t w) :=
  waitAfter_extends (fun _ _ => trivial) (fun _ _ => trivial) t w

/-- The world in which a pass of `loop` calls `captureAndUploadImage`, if it does. -/
def attempt? (E : Env) (w : World) : Option World :=
  let w := maintainWiFi E w
  let k := w.reads.tick
  if w.nextCaptureTime ≤ E.time k then some (w.nextTick.emit (.check k (E.time k) true)) else none

/-- The attempts of the first `n` passes. -/
def attempts (E : Env) (n : Nat) (w : World) : List World :=
  (List.range n).filterMap fun i => attempt? E (run E i w)

theorem attempts_succ (E : Env) (n : Nat) (w : World) :
    attempts E (n + 1) w = attempts E n w ++ (attempt? E (run E n w)).toList := by
  rw [attempts, List.range_succ, List.filterMap_append]
  rfl

/-- A pass reads the clock after looking at Wi-Fi. If the reading is due it makes an attempt, which
moves the schedule on; then it waits. -/
theorem loop_cases (E : Env) (w : World) :
    let w₁ := maintainWiFi E w
    let k := w₁.reads.tick
    (w₁.nextCaptureTime ≤ E.time k ∧
      attempt? E w = some (w₁.nextTick.emit (.check k (E.time k) true)) ∧ loop E w =
        waitAfter (E.time k) (afterAttempt E (E.time k)
          (w₁.nextTick.emit (.check k (E.time k) true)))) ∨
    (¬ w₁.nextCaptureTime ≤ E.time k ∧ attempt? E w = none ∧
      loop E w = waitAfter (E.time k) (w₁.nextTick.emit (.check k (E.time k) false))) := by
  intro w₁ k
  rcases checkScheduledCapture_cases E w₁ with ⟨hdue, he⟩ | ⟨hdue, he⟩
  · exact .inr ⟨hdue, if_neg hdue, he⟩
  · exact .inl ⟨hdue, if_pos hdue, he⟩

end Timelapse
end TimerCam

import TimerCam.Stream.Guard
import TimerCam.Timelapse.Sketch

/-!
# Ownership

Neither sketch misuses a frame buffer: each routine that captures, met with no buffer held, uses what
it is lent as it may and holds nothing when it returns (`Camera.At`).

* `Owned`          : what that says of the log of camera events.
* `buffers_owned`  : it holds of every sequence of requests, and of every sequence of captures.
-/

namespace TimerCam

open Lease

def heldAfter (log : List CamEv) : List Frame := held (log.map CamEv.lease)

/-- At most one buffer is held at any moment, and none when a frame is grabbed; `free`, the return to
the driver and every access find the buffer they name held. In the end nothing is held, and every
buffer grabbed has been returned once, before the next grab. -/
structure Owned (log : List CamEv) : Prop where
  one : ∀ pre post, log = pre ++ post → (heldAfter pre).length ≤ 1
  grab : ∀ pre fb post, log = pre ++ .grab fb :: post → heldAfter pre = []
  free : ∀ pre fb post, log = pre ++ .free fb :: post → ∃ f, fb = some f ∧ heldAfter pre = [f]
  giveBack : ∀ pre f post, log = pre ++ .giveBack f :: post → heldAfter pre = [f]
  read : ∀ pre fb post, log = pre ++ .read fb :: post → ∃ f, fb = some f ∧ heldAfter pre = [f]
  done : heldAfter log = []
  returned : moves (log.map CamEv.lease) = (asked (log.map CamEv.lease)).flatMap episode

theorem Camera.At.owned {c : Camera} (h : c.At none) : Owned c.log := by
  have hrun := h.run
  have hsplit : ∀ {pre : List CamEv} {e : CamEv} {post : List CamEv}, c.log = pre ++ e :: post →
      Run none (pre.map CamEv.lease ++ e.lease :: post.map CamEv.lease) none := by
    intro pre e post he
    rw [← List.map_cons, ← List.map_append, ← he]
    exact hrun
  refine ⟨?_, ?_, ?_, ?_, ?_, hrun.held_eq, hrun.moves_eq⟩
  · intro pre post he
    rw [he, List.map_append] at hrun
    exact hrun.held_prefix
  · intro pre fb post he
    exact (hsplit he).mid_acquire
  · intro pre fb post he
    exact (hsplit he).mid_touch
  · intro pre f post he
    exact (hsplit he).mid_release
  · intro pre fb post he
    exact (hsplit he).mid_touch

/-- A `get` that fails leaves nothing held; one that succeeds, the frame it got. -/
theorem Camera.At.get_cases {c : Camera} (h : c.At none) (D : Driver) :
    (c.get D).fb = none ∧ (c.get D).At none ∨
      ∃ f, (c.get D).fb = some f ∧ (c.get D).At (some f) := by
  have hget := h.get D
  cases hfb : (c.get D).fb with
  | none => exact .inl ⟨rfl, hfb ▸ hget⟩
  | some f => exact .inr ⟨f, rfl, hfb ▸ hget⟩

theorem holds_of_get (D : Driver) (c : Camera) (h : c.At none)
    (hgot : (c.get D).fb.isSome = true) : ∃ f, (c.get D).fb = some f ∧ (c.get D).At (some f) := by
  rcases h.get_cases D with ⟨hfb, -⟩ | hf
  · rw [hfb] at hgot
    cases hgot
  · exact hf

theorem idle_of_get (D : Driver) (c : Camera) (h : c.At none)
    (hgot : (c.get D).fb.isSome = false) : (c.get D).At none := by
  rcases h.get_cases D with ⟨-, hat⟩ | ⟨f, hfb, -⟩
  · exact hat
  · rw [hfb] at hgot
    cases hgot

/-! ## The streaming sketch -/

namespace Stream

theorem streamLoop_at (D : Driver) (stays : Nat) {c : Camera} (h : c.At none) :
    (streamLoop D stays c).cam.At none := by
  induction stays generalizing c with
  | zero => exact h
  | succ stays ih =>
    rw [streamLoop]
    rcases h.get_cases D with ⟨hfb, hget⟩ | ⟨f, hfb, hget⟩
    · simp only [hfb]
      exact hget
    · simp only [hfb]
      split
      · exact hget.read.free
      · exact ih hget.read.read.read.free

theorem handleJpg_at (D : Driver) (r : Request) {c : Camera} (h : c.At none) :
    (handleJpg D r c).cam.At none := by
  simp only [handleJpg]
  split
  · rcases h.get_cases D with ⟨hfb, hget⟩ | ⟨f, hfb, hget⟩
    · simp only [hfb]
      exact hget
    · simp only [hfb]
      split
      · exact hget.read.free
      · exact hget.read.read.read.free
  · exact h

theorem handleStream_at (D : Driver) (r : Request) {c : Camera} (h : c.At none) :
    (handleStream D r c).cam.At none := by
  simp only [handleStream]
  split
  · split
    · exact streamLoop_at D r.stays h
    · exact h
  · exact h

theorem handle_at (D : Driver) (r : Request) {c : Camera} (h : c.At none) :
    (handle D r c).cam.At none := by
  unfold handle
  cases r.route with
  | root =>
    simp only [handleRoot]
    split
    · exact h
    · exact h
  | live =>
    simp only [handleLive]
    split
    · exact h
    · exact h
  | jpg => exact handleJpg_at D r h
  | stream => exact handleStream_at D r h

theorem serve_at (D : Driver) (rs : List Request) {c : Camera} (h : c.At none) :
    (serve D rs c).1.At none :=
  Mealy.run_inv (fun c => c.At none) (fun _ r hc => handle_at D r hc) rs c h

theorem testSingleCapture_at (D : Driver) {c : Camera} (h : c.At none) :
    (testSingleCapture D c).At none := by
  have hwarm := warmUp_spec (Camera.get D) (·.fb.isSome) Camera.free (fun c => c.At none)
    (fun c => ∃ f, c.fb = some f ∧ c.At (some f)) (holds_of_get D) (idle_of_get D)
    (fun c hc => hc.elim fun f hf => hf.2.free) 2 c h
  simp only [testSingleCapture]
  cases hr : (warmUp (Camera.get D) (·.fb.isSome) Camera.free 3 c).1 with
  | false => exact hwarm.2 hr
  | true =>
    obtain ⟨⟨f, hfb, hat⟩, -⟩ := hwarm.1 hr
    rw [if_pos rfl, hfb]
    exact hat.read.free

theorem setup_at {E : Env} {fuel : Nat} {w : World} (h : setup E fuel {} = some w) :
    w.cam.At none := by
  simp only [setup] at h
  split at h
  · cases h
  · split at h
    · cases h
      exact testSingleCapture_at E.camera .init
    · cases h
      exact testSingleCapture_at E.camera .init

theorem run_at {E : Env} {w : World} (h : w.cam.At none) (n : Nat) : (run E n w).cam.At none := by
  obtain ⟨rs, hcam, -⟩ := run_served E w n
  rw [hcam]
  exact serve_at E.camera rs h

end Stream

/-! ## The timelapse sketch -/

namespace Timelapse

theorem pollLocalTime_cam (E : Env) (n : Nat) (w : World) : (pollLocalTime E n w).2.cam = w.cam := by
  induction n generalizing w with
  | zero => rfl
  | succ n ih =>
    rw [pollLocalTime]
    split
    · rfl
    · rw [ih]
      rfl

theorem getTimestampFilename_cam (E : Env) (w : World) :
    (getTimestampFilename E w).2.cam = w.cam := by
  simp only [getTimestampFilename]
  split
  · exact pollLocalTime_cam E _ w
  · exact pollLocalTime_cam E _ w

theorem chunkLoop_at (E : Env) (fb : Frame) (processed : Nat) (postData : Builder UInt8)
    {w : World} (h : w.cam.At (some fb)) :
    (chunkLoop E fb processed postData w).2.cam.At (some fb) := by
  revert h
  refine chunkLoop_rule (I := fun _ _ w r => w.cam.At (some fb) → r.2.cam.At (some fb)) ?_ ?_
    processed postData w
  · intro _ _ w _ h
    exact h
  · intro _ _ w r _ ih h
    refine ih ?_
    unfold afterChunk
    split
    · exact h.read
    · exact h.read

theorem POST_cam (E : Env) (url postData : Octets.Bytes) (w : World) :
    (POST E url postData w).2.cam = w.cam := rfl

theorem sendPostData_cam (E : Env) (url postData : Octets.Bytes) (w : World) :
    (sendPostData E url postData w).2.cam = w.cam := by
  simp only [sendPostData]
  split
  · simp only [World.emit_cam, POST_cam]
  · simp only [World.emit_cam, POST_cam]

theorem uploadFrame_at (E : Env) {fb : Frame} {w : World} (h : w.cam.At (some fb)) :
    (uploadFrame E fb w).cam.At none := by
  simp only [uploadFrame]
  split
  · exact h.read.read.free
  · have hname : (nameFor E fb w).2.cam.At (some fb) := by
      rw [nameFor, getTimestampFilename_cam]
      exact h.read.read
    have hup : ∀ fileName, (uploadToGoogleDrive E fb fileName folderPath
        (nameFor E fb w).2).2.cam.At (some fb) := by
      intro fileName
      unfold uploadToGoogleDrive
      rw [sendPostData_cam]
      exact chunkLoop_at E fb 0 _ hname
    split
    · exact (hup _).free
    · exact (hup _).free

theorem captureAndUploadImage_at (E : Env) {w : World} (h : w.cam.At none) :
    (captureAndUploadImage E w).cam.At none := by
  have hwarm := warmUp_spec (World.get E) (·.cam.fb.isSome) (fun w => w.free.delay 200)
    (fun w => w.cam.At none) (fun w => ∃ f, w.cam.fb = some f ∧ w.cam.At (some f))
    (fun w => holds_of_get E.camera w.cam) (fun w => idle_of_get E.camera w.cam)
    (fun w hw => hw.elim fun f hf => hf.2.free) 9 (w.emit (.capture w.reads.tick)) h
  have hafter : (afterWarmUp E (warmUpFrames E (w.emit (.capture w.reads.tick)))).cam.At none := by
    unfold afterWarmUp
    cases hr : (warmUpFrames E (w.emit (.capture w.reads.tick))).1 with
    | false => exact hwarm.2 hr
    | true =>
      obtain ⟨⟨f, hfb, hat⟩, -⟩ := hwarm.1 hr
      have hfb' : (warmUpFrames E (w.emit (.capture w.reads.tick))).2.cam.fb = some f := hfb
      rw [if_pos rfl, hfb']
      exact uploadFrame_at E hat
  exact hafter

theorem waitAfter_cam (t : Int) (w : World) : (waitAfter t w).cam = w.cam := by
  simp only [waitAfter]
  split
  · rfl
  · split
    · rfl
    · rfl

theorem checkScheduledCapture_at (E : Env) {w : World} (h : w.cam.At none) :
    (checkScheduledCapture E w).cam.At none := by
  simp only [checkScheduledCapture]
  split
  · rw [waitAfter_cam, World.emit_cam, getLocalTime, pollLocalTime_cam]
    exact captureAndUploadImage_at E h
  · rw [waitAfter_cam, World.emit_cam]
    exact h

theorem maintainWiFi_cam (E : Env) (w : World) : (maintainWiFi E w).cam = w.cam := by
  simp only [maintainWiFi]
  split
  · rfl
  · rfl

theorem syncLoop_cam (E : Env) (fuel : Nat) (w : World) {w' : World}
    (h : syncLoop E fuel w = some w') : w'.cam = w.cam := by
  induction fuel generalizing w with
  | zero => cases h
  | succ fuel ih =>
    rw [syncLoop] at h
    split at h
    · exact (ih (w.nextTick.delay 500) h).trans rfl
    · cases h
      rfl

theorem setup_at {E : Env} {fuel : Nat} {w : World} (h : setup E fuel {} = some w) :
    w.cam.At none := by
  simp only [setup] at h
  split at h
  · cases h
  · simp only [initializeTime, Option.map_eq_some_iff] at h
    obtain ⟨w₁, hsync, rfl⟩ := h
    rw [World.emit_cam, getLocalTime, pollLocalTime_cam]
    exact (syncLoop_cam E fuel _ hsync) ▸ Camera.At.init

theorem run_at {E : Env} {w : World} (h : w.cam.At none) (n : Nat) : (run E n w).cam.At none := by
  induction n with
  | zero => exact h
  | succ n ih =>
    rw [run_succ]
    refine checkScheduledCapture_at E ?_
    rw [maintainWiFi_cam]
    exact ih

theorem captures_at (Es : List Env) {w : World} (h : w.cam.At none) :
    (Es.foldl (fun w E => captureAndUploadImage E w) w).cam.At none := by
  induction Es generalizing w with
  | nil => exact h
  | cons E Es ih => exact ih (captureAndUploadImage_at E h)

end Timelapse

/-! ## Both -/

/-- The start-up capture of the streaming sketch and any requests after it, and any captures of the
timelapse sketch, each with any outcomes of its own. -/
theorem buffers_owned :
    (∀ (D : Driver) (rs : List Stream.Request),
      Owned (Stream.serve D rs (Stream.testSingleCapture D {})).1.log) ∧
    ∀ Es : List Timelapse.Env,
      Owned (Es.foldl (fun w E => Timelapse.captureAndUploadImage E w) {}).cam.log := by
  refine ⟨fun D rs => ?_, fun Es => ?_⟩
  · exact (Stream.serve_at D rs (Stream.testSingleCapture_at D .init)).owned
  · exact (Timelapse.captures_at Es .init).owned

/-- The same of whole runs. -/
theorem runs_owned :
    (∀ (E : Stream.Env) (fuel : Nat) (w : Stream.World), Stream.setup E fuel {} = some w →
      ∀ n, Owned (Stream.run E n w).cam.log) ∧
    ∀ (E : Timelapse.Env) (fuel : Nat) (w : Timelapse.World), Timelapse.setup E fuel {} = some w →
      ∀ n, Owned (Timelapse.run E n w).cam.log := by
  refine ⟨fun E fuel w h n => ?_, fun E fuel w h n => ?_⟩
  · exact (Stream.run_at (Stream.setup_at h) n).owned
  · exact (Timelapse.run_at (Timelapse.setup_at h) n).owned

end TimerCam

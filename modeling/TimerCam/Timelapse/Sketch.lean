import TimerCam.Timelapse.Upload
import Mathlib.Logic.Function.Iterate

/-!
# Timelapse.Sketch

`setup`, `loop` and what they call, of `m5cam_timelapse_v9_end_final.ino`. The configuration of the
camera sensor is left out.

* `getLocalTime`, `strftime` : the functions of the C library, as documented.
* `captureAndUploadImage`    : the warm-up, the checks, the name and the upload.
* `checkScheduledCapture`    : one look at the clock.
-/

namespace TimerCam
namespace Timelapse

open Octets Uptime Calendar

/-! ## Local time -/

def gmtOffset_sec : Nat := 28800

/-- `struct tm`, with the fields that the sketch reads. -/
structure Tm where
  tm_sec : Nat
  tm_min : Nat
  tm_hour : Nat
  tm_mday : Nat
  tm_mon : Nat
  tm_year : Nat
deriving DecidableEq

def localtime (now : Nat) : Tm :=
  let t := now + gmtOffset_sec
  let date := Date.ofDays (t / 86400)
  { tm_sec := t % 60, tm_min := t / 60 % 60, tm_hour := t / 3600 % 24, tm_mday := date.day + 1,
    tm_mon := date.month, tm_year := date.year - 1900 }

/-- `info->tm_year > (2016 - 1900)` -/
def Tm.isSet (t : Tm) : Bool := t.tm_year > 116

/-- The loop of `getLocalTime`: the clock is looked at until it shows a year after 2016, at most `n`
times more, 10 ms apart. The answer is whether it does, and the time seen last. -/
def pollLocalTime (E : Env) : Nat → World → (Bool × Tm) × World
  | 0, w =>
    let timeinfo := localtime (E.time w.reads.tick)
    ((timeinfo.isSet, timeinfo), w.nextTick)
  | n + 1, w =>
    let timeinfo := localtime (E.time w.reads.tick)
    if timeinfo.isSet then ((true, timeinfo), w.nextTick)
    else pollLocalTime E n (w.nextTick.delay 10)

def getLocalTime (E : Env) (w : World) : (Bool × Tm) × World :=
  pollLocalTime E (E.patience w.reads.tick) w

/-- `strftime(buffer, size, "%Y%m%d_%H%M%S", &timeinfo)`. Where the text and its final zero do not
fit, the buffer is indeterminate. -/
def strftime (size : Nat) (t : Tm) : Option Bytes :=
  let s := decimal (t.tm_year + 1900) ++ pad 2 (t.tm_mon + 1) ++ pad 2 t.tm_mday ++ text "_" ++
    pad 2 t.tm_hour ++ pad 2 t.tm_min ++ pad 2 t.tm_sec
  if s.length < size then some s else none

/-- `none` stands for a name made from an indeterminate buffer. -/
def getTimestampFilename (E : Env) (w : World) : Option Bytes × World :=
  let r := getLocalTime E w
  if r.1.1 then ((strftime 20 r.1.2).map (· ++ text ".jpg"), r.2)
  else
    (some (text "image_" ++ decimal (millis (E.uptime r.2.reads.tick)).toNat ++ text ".jpg"),
      r.2.nextTick)

/-! ## A capture -/

def MAIN_FOLDER : Bytes := text "10botics.com"
def SUB_FOLDER : Bytes := text "cam2"
def SUB_SUB_FOLDER : Bytes := text "image"

def folderPath : Bytes := MAIN_FOLDER ++ text "/" ++ SUB_FOLDER ++ text "/" ++ SUB_SUB_FOLDER

/-- What follows the warm-up, with the frame it ended with. -/
def uploadFrame (E : Env) (fb : Frame) (w : World) : World :=
  -- `fb->buf`, then `fb->len`
  let w := (w.read (some fb)).read (some fb)
  if fb.len < 1024 then
    (w.emit (.serial (text "Image too small, skipping upload"))).free
  else
    let name := getTimestampFilename E w
    let fileName := name.1.getD (E.stale w.reads.tick)
    let r := uploadToGoogleDrive E fb fileName folderPath name.2
    let w := if r.1 then r.2.emit (.serial (text "Upload Success")) else r.2
    w.free

/-- The warm-up: ten captures, the first nine given back, each before a `delay(200)`. -/
def warmUpFrames (E : Env) (w : World) : Bool × World :=
  warmUp (World.get E) (·.cam.fb.isSome) (fun w => w.free.delay 200) 10 w

def afterWarmUp (E : Env) (r : Bool × World) : World :=
  if r.1 then
    match r.2.cam.fb with
    | some fb => uploadFrame E fb r.2
    | none => r.2
  else r.2.emit (.serial (text "Capture Failed"))

def captureAndUploadImage (E : Env) (w : World) : World :=
  let w := afterWarmUp E (warmUpFrames E (w.emit (.capture w.reads.tick)))
  w.emit (.captured w.reads.tick)

/-! ## The schedule -/

/-- `((t / 60) + 1) * 60` -/
def nextMinute (t : Int) : Int := (t.tdiv 60 + 1) * 60

/-- `while (time(nullptr) < 100000) delay(500);`
`none` means the loop is still running after `fuel` passes. -/
def syncLoop (E : Env) : Nat → World → Option World
  | 0, _ => none
  | fuel + 1, w =>
    if E.time w.reads.tick < 100000 then syncLoop E fuel (w.nextTick.delay 500)
    else some w.nextTick

def initializeTime (E : Env) (fuel : Nat) (w : World) : Option World :=
  (syncLoop E fuel w).map fun w =>
    let now : Int := E.time w.reads.tick
    let w := w.nextTick.emit (.sync now)
    let w := { w with nextCaptureTime := nextMinute now }
    let r := getLocalTime E w
    r.2.emit (.announce w.nextCaptureTime r.1.2.tm_hour ((r.1.2.tm_min + 1) % 60))

/-- The waiting code of `checkScheduledCapture`. -/
def waitAfter (currentTime : Int) (w : World) : World :=
  let timeLeft := w.nextCaptureTime - currentTime
  let w := w.emit (.waiting w.nextCaptureTime currentTime)
  if timeLeft > 10 then w.delay 1000
  else if timeLeft > 0 then w.delay 100
  else w

def checkScheduledCapture (E : Env) (w : World) : World :=
  let k := w.reads.tick
  let currentTime : Int := E.time k
  let w := w.nextTick
  if currentTime ≥ w.nextCaptureTime then
    let w := captureAndUploadImage E (w.emit (.check k currentTime true))
    let w := { w with nextCaptureTime := nextMinute currentTime }
    let r := getLocalTime E w
    let w := r.2.emit (.announce w.nextCaptureTime r.1.2.tm_hour (r.1.2.tm_min + 1))
    waitAfter currentTime w
  else waitAfter currentTime (w.emit (.check k currentTime false))

def maintainWiFi (E : Env) (w : World) : World :=
  let w' := { w with reads := w.reads.nextWifi }
  if E.wifi w.reads.wifi then w' else (w'.emit .reconnect).delay 5000

def setup (E : Env) (fuel : Nat) (w : World) : Option World :=
  match connectToWiFi E.wifi E.uptime fuel w.reads with
  | none => none
  | some reads => initializeTime E fuel { w with reads := reads }

def loop (E : Env) (w : World) : World := checkScheduledCapture E (maintainWiFi E w)

def run (E : Env) (n : Nat) (w : World) : World := (loop E)^[n] w

theorem run_succ (E : Env) (n : Nat) (w : World) : run E (n + 1) w = loop E (run E n w) :=
  Function.iterate_succ_apply' (loop E) n w

/-- Six seconds from noon UTC on 28 January 2024, with Wi-Fi, enough memory, no camera, and a server
that answers 200. -/
def noonEnv : Env :=
  { wifi := fun _ => true, uptime := fun _ => 0, clock := fun k => 1706443200000 + 1000 * min k 6,
    patience := fun _ => 0, camera := fun _ => none, heap := fun _ => true,
    post := fun _ => ⟨200, []⟩, stale := fun _ => [] }

/-- The same day, with a minute from each instant to the next and a camera whose frames have 1024
octets. -/
def minuteEnv : Env :=
  { noonEnv with clock := fun k => 1706443200000 + 60000 * min k 100,
                 camera := fun _ => some (List.replicate 1024 0) }

def minuteWorld : World := (setup minuteEnv 1 {}).getD {}

theorem setup_minute : setup minuteEnv 1 {} = some minuteWorld := rfl

theorem minuteEnv_year (k : Nat) : (localtime (minuteEnv.time k)).tm_year = 124 := by
  have hdate : (Date.ofDays 19750).year = 2024 := by decide +kernel
  have hday : (minuteEnv.time k + gmtOffset_sec) / 86400 = 19750 := by
    simp only [Env.time, minuteEnv, gmtOffset_sec]
    omega
  simp only [localtime, hday, hdate]

/-! ## What the calls add to the trace -/

theorem pollLocalTime_idles (E : Env) (n : Nat) (w : World) :
    Idles w (pollLocalTime E n w).2 := by
  have htick : ∀ w : World, Idles w w.nextTick := fun w => (Idles.refl w).nextTick
  induction n generalizing w with
  | zero => exact htick w
  | succ n ih =>
    rw [pollLocalTime]
    split
    · exact htick w
    · exact ((htick w).delay 10).trans (ih _)

theorem getLocalTime_idles (E : Env) (w : World) : Idles w (getLocalTime E w).2 :=
  pollLocalTime_idles E _ w

/-- No body is posted while the clock is polled, so the body may be any. -/
theorem getLocalTime_extends (E : Env) (body : Bytes) (w : World) :
    Extends (Ev.minor body) w (getLocalTime E w).2 :=
  (getLocalTime_idles E w).minor body

theorem getTimestampFilename_idles (E : Env) (w : World) :
    Idles w (getTimestampFilename E w).2 := by
  have h := getLocalTime_idles E w
  simp only [getTimestampFilename]
  split
  · exact h
  · exact h.nextTick

theorem syncLoop_idles (E : Env) (fuel : Nat) (w : World) {w' : World}
    (h : syncLoop E fuel w = some w') : Idles w w' := by
  induction fuel generalizing w with
  | zero => cases h
  | succ fuel ih =>
    rw [syncLoop] at h
    split at h
    · exact ((Idles.refl w).nextTick.delay 500).trans (ih _ h)
    · cases h
      exact (Idles.refl w).nextTick

theorem maintainWiFi_extends {P : Ev → Prop} (hr : P .reconnect) (hd : ∀ k ms, P (.delay k ms))
    (E : Env) (w : World) : Extends P w (maintainWiFi E w) := by
  have h : Extends P w { w with reads := w.reads.nextWifi } :=
    ⟨⟨[], (List.append_nil _).symm, by simp⟩, Nat.le_refl _, rfl⟩
  simp only [maintainWiFi]
  split
  · exact h
  · exact (h.emit .reconnect hr).delay 5000 (hd _ _)

theorem warmUp_idles (E : Env) (n : Nat) (w : World) :
    Idles w (warmUp (World.get E) (·.cam.fb.isSome) (fun w => w.free.delay 200) n w).2 := by
  induction n generalizing w with
  | zero => exact .refl w
  | succ n ih =>
    have hget : Idles w (w.get E) := (Idles.refl w).congr rfl rfl rfl rfl
    have hfree : Idles w (w.get E).free := hget.congr rfl rfl rfl rfl
    rw [warmUp]
    split
    · split
      · exact hget
      · exact (hfree.delay 200).trans (ih _)
    · exact hget

theorem warmUp_extends (E : Env) (body : Bytes) (n : Nat) (w : World) :
    Extends (Ev.minor body) w
      (warmUp (World.get E) (·.cam.fb.isSome) (fun w => w.free.delay 200) n w).2 :=
  (warmUp_idles E n w).minor body

def nameFor (E : Env) (fb : Frame) (w : World) : Option Bytes × World :=
  getTimestampFilename E ((w.read (some fb)).read (some fb))

theorem nameFor_idles (E : Env) (fb : Frame) (w : World) : Idles w (nameFor E fb w).2 := by
  have hread : Idles w ((w.read (some fb)).read (some fb)) := (Idles.refl w).congr rfl rfl rfl rfl
  exact hread.trans (getTimestampFilename_idles E _)

theorem nameFor_extends (E : Env) (fb : Frame) (body : Bytes) (w : World) :
    Extends (Ev.minor body) w (nameFor E fb w).2 :=
  (nameFor_idles E fb w).minor body

/-- A frame is either dropped or uploaded, once, under the name made for it. -/
theorem uploadFrame_cases (E : Env) (fb : Frame) (w : World) :
    (∃ body, Extends (Ev.minor body) w (uploadFrame E fb w)) ∨
      ∃ body, Extends (Ev.minor body) ((nameFor E fb w).2.emit
        (.upload ((nameFor E fb w).1.getD (E.stale w.reads.tick)) folderPath))
        (uploadFrame E fb w) := by
  simp only [uploadFrame]
  split
  · left
    have hread : Extends (Ev.minor []) w ((w.read (some fb)).read (some fb)) :=
      (Extends.refl _ w).congr rfl rfl rfl
    exact ⟨[], (hread.emit (.serial (text "Image too small, skipping upload")) trivial).congr
      rfl rfl rfl⟩
  · right
    let fileName := (nameFor E fb w).1.getD (E.stale w.reads.tick)
    let r := uploadToGoogleDrive E fb fileName folderPath (nameFor E fb w).2
    have hup := upload_extends E fb fileName folderPath (nameFor E fb w).2
    have hlast : Extends (Ev.minor (postedBody E fb fileName folderPath (nameFor E fb w).2))
        ((nameFor E fb w).2.emit (.upload fileName folderPath))
        (if r.1 then r.2.emit (.serial (text "Upload Success")) else r.2) := by
      split
      · exact hup.emit (.serial (text "Upload Success")) trivial
      · exact hup
    exact ⟨_, hlast.congr rfl rfl rfl⟩

/-- A capture adds no upload, or one after a warm-up that succeeded. -/
theorem capture_cases (E : Env) (w : World) :
    let w₀ := w.emit (.capture w.reads.tick)
    ∃ w' : World, captureAndUploadImage E w = w'.emit (.captured w'.reads.tick) ∧
      ((∃ body, Extends (Ev.minor body) w₀ w') ∨
        ∃ fb body, (warmUpFrames E w₀).1 = true ∧
          Extends (Ev.minor body) ((nameFor E fb (warmUpFrames E w₀).2).2.emit
            (.upload ((nameFor E fb (warmUpFrames E w₀).2).1.getD
              (E.stale (warmUpFrames E w₀).2.reads.tick)) folderPath)) w') := by
  intro w₀
  have hwarm : ∀ body, Extends (Ev.minor body) w₀ (warmUpFrames E w₀).2 :=
    fun body => warmUp_extends E body 10 w₀
  refine ⟨afterWarmUp E (warmUpFrames E w₀), rfl, ?_⟩
  unfold afterWarmUp
  cases hr : (warmUpFrames E w₀).1 with
  | false =>
    left
    exact ⟨[], by
      rw [if_neg (by simp)]
      exact (hwarm []).emit (.serial (text "Capture Failed")) trivial⟩
  | true =>
    rw [if_pos rfl]
    cases hfb : (warmUpFrames E w₀).2.cam.fb with
    | none =>
      left
      exact ⟨[], hwarm []⟩
    | some fb =>
      rcases uploadFrame_cases E fb (warmUpFrames E w₀).2 with ⟨body, h⟩ | ⟨body, h⟩
      · exact .inl ⟨body, (hwarm body).trans h⟩
      · exact .inr ⟨fb, body, rfl, h⟩

theorem capture_extends (E : Env) (w : World) :
    Extends Ev.offSchedule (w.emit (.capture w.reads.tick)) (captureAndUploadImage E w) := by
  have hminor : ∀ {body w₁ w₂}, Extends (Ev.minor body) w₁ w₂ → Extends Ev.offSchedule w₁ w₂ :=
    fun h => h.imp fun _ he => he.offSchedule
  obtain ⟨w', he, ⟨body, h⟩ | ⟨fb, body, -, h⟩⟩ := capture_cases E w
  · rw [he]
    exact (hminor h).emit (.captured w'.reads.tick) trivial
  · rw [he]
    have hwarm := hminor (warmUp_extends E [] 10 (w.emit (.capture w.reads.tick)))
    have hname := hwarm.trans (hminor (nameFor_extends E fb [] _))
    exact ((hname.emit (.upload _ folderPath) trivial).trans (hminor h)).emit
      (.captured w'.reads.tick) trivial

/-- What a pass does with its attempt `a` before it waits; `t` is the reading. -/
def afterAttempt (E : Env) (t : Int) (a : World) : World :=
  let w := { captureAndUploadImage E a with nextCaptureTime := nextMinute t }
  let r := getLocalTime E w
  r.2.emit (.announce w.nextCaptureTime r.1.2.tm_hour (r.1.2.tm_min + 1))

theorem afterAttempt_extends (E : Env) (t : Int) (a : World) :
    Extends (Ev.minor []) { captureAndUploadImage E a with nextCaptureTime := nextMinute t }
      (afterAttempt E t a) :=
  (getLocalTime_extends E [] _).emit _ trivial

/-- A pass reads the clock; if the reading is due it captures and sets the schedule; then it waits. -/
theorem checkScheduledCapture_cases (E : Env) (w : World) :
    let k := w.reads.tick
    let t : Int := E.time k
    (¬ w.nextCaptureTime ≤ t ∧
      checkScheduledCapture E w = waitAfter t (w.nextTick.emit (.check k t false))) ∨
    (w.nextCaptureTime ≤ t ∧ checkScheduledCapture E w =
      waitAfter t (afterAttempt E t (w.nextTick.emit (.check k t true)))) := by
  intro k t
  unfold checkScheduledCapture
  by_cases hdue : w.nextTick.nextCaptureTime ≤ t
  · exact .inr ⟨hdue, if_pos hdue⟩
  · exact .inl ⟨hdue, if_neg hdue⟩

/-- What `setup` adds around the reading that sets the schedule. -/
theorem setup_cases {E : Env} {fuel : Nat} {w : World} (h : setup E fuel {} = some w) :
    ∃ (reads : Reads) (w₁ : World), Extends (Ev.minor []) { reads := reads } w₁ ∧
      Extends (Ev.minor []) { w₁.nextTick.emit (.sync (E.time w₁.reads.tick)) with
        nextCaptureTime := nextMinute (E.time w₁.reads.tick) } w := by
  simp only [setup] at h
  split at h
  · cases h
  · rename_i reads _
    simp only [initializeTime, Option.map_eq_some_iff] at h
    obtain ⟨w₁, hsync, rfl⟩ := h
    exact ⟨reads, w₁, (syncLoop_idles E fuel _ hsync).minor [],
      (getLocalTime_extends E [] _).emit _ trivial⟩

theorem waitAfter_extends {P : Ev → Prop} (hw : ∀ next t, P (.waiting next t))
    (hd : ∀ k ms, P (.delay k ms)) (t : Int) (w : World) : Extends P w (waitAfter t w) := by
  have h := (Extends.refl P w).emit (.waiting w.nextCaptureTime t) (hw _ _)
  simp only [waitAfter]
  split
  · exact h.delay 1000 (hd _ _)
  · split
    · exact h.delay 100 (hd _ _)
    · exact h

/-- The two delays of `checkScheduledCapture`. -/
def waitMs (timeLeft : Int) : Nat := if timeLeft > 10 then 1000 else 100

theorem waitMs_pos (timeLeft : Int) : 0 < waitMs timeLeft := by
  unfold waitMs
  split <;> omega

theorem waitAfter_delay {t : Int} {w : World} (h : t < w.nextCaptureTime) :
    waitAfter t w =
      (w.emit (.waiting w.nextCaptureTime t)).delay (waitMs (w.nextCaptureTime - t)) := by
  simp only [waitAfter, waitMs]
  split
  · rfl
  · rw [if_pos (by omega)]

end Timelapse
end TimerCam

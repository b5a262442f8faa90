import TimerCam.Lib.Builder
import TimerCam.Lib.Calendar
import TimerCam.Camera
import TimerCam.Wifi

/-!
# Timelapse.World

The globals of `m5cam_timelapse_v9_end_final.ino`, what the sketch meets outside (`Env`), and the
trace of what it does (`Ev`). Of the serial output only the lines that report an outcome are kept; the
HTTP codes and the response texts that `uploadToGoogleDrive` prints are not.

Instants are numbered by `reads.tick`: the clocks are read at one, and `delay(n)` lasts from one to
the next. The real clock counts milliseconds and `time()` shows its whole seconds.
-/

namespace TimerCam
namespace Timelapse

open Octets

/-- What `http.POST` returns, and the redirect address that comes with it. -/
structure Reply where
  code : Int
  location : Bytes

/-- `wifi k` is read number `k` of `WiFi.status() == WL_CONNECTED`, `uptime k` and `clock k` the true
uptime and the real clock in ms at instant `k`, `patience k` how often a `getLocalTime` called at
instant `k` looks at the clock again, `heap k` whether append number `k` finds memory, `post k` the
answer to POST number `k`, and `stale k` the name made at instant `k` from a buffer that `strftime`
has left indeterminate. -/
structure Env where
  wifi : Nat → Bool
  uptime : Nat → Nat
  clock : Nat → Nat
  patience : Nat → Nat
  camera : Driver
  heap : Nat → Bool
  post : Nat → Reply
  stale : Nat → Bytes

/-- `time(nullptr)`. -/
def Env.time (E : Env) (k : Nat) : Nat := E.clock k / 1000

inductive Ev where
  | serial (line : Bytes)
  /-- `delay(ms)`, from instant `k` to the next. -/
  | delay (k ms : Nat)
  | reconnect
  /-- The `time(&now)` of `initializeTime`. -/
  | sync (now : Int)
  /-- The `time(&currentTime)` of `checkScheduledCapture` at instant `k`, and whether it is due. -/
  | check (k : Nat) (currentTime : Int) (due : Bool)
  /-- `captureAndUploadImage` is called, and returns. -/
  | capture (k : Nat)
  | captured (k : Nat)
  /-- The hour and minute printed for the `nextCaptureTime` just set. -/
  | announce (nextCaptureTime : Int) (hour minute : Nat)
  /-- The waiting code of `checkScheduledCapture` is reached. -/
  | waiting (nextCaptureTime currentTime : Int)
  | upload (fileName folderPath : Bytes)
  | progress (processed size : Nat)
  | httpBegin (url : Bytes)
  | httpAddHeader (name value : Bytes)
  | httpPost (body : Bytes)
  | httpEnd
deriving DecidableEq

/-- `appends` counts the appends made to the bodies, `posts` the calls of `http.POST`. -/
structure World where
  nextCaptureTime : Int := 0
  cam : Camera := {}
  reads : Reads := {}
  appends : Nat := 0
  posts : Nat := 0
  trace : List Ev := []

namespace World

def emit (w : World) (e : Ev) : World := { w with trace := w.trace ++ [e] }

@[simp] theorem emit_cam (w : World) (e : Ev) : (w.emit e).cam = w.cam := rfl

def nextTick (w : World) : World := { w with reads := w.reads.nextTick }

def delay (w : World) (ms : Nat) : World := (w.emit (.delay w.reads.tick ms)).nextTick

def get (E : Env) (w : World) : World := { w with cam := w.cam.get E.camera }

def free (w : World) : World := { w with cam := w.cam.free }

def read (fb : Option Frame) (w : World) : World := { w with cam := w.cam.read fb }

end World

/-! ## Extending the trace -/

/-- An event that has nothing to do with the schedule. -/
def Ev.offSchedule : Ev → Prop
  | .sync _ | .check _ _ _ | .capture _ | .waiting _ _ => False
  | _ => True

/-- An event off the schedule that is no call of an upload either, and posts `body` if anything. -/
def Ev.minor (body : Bytes) : Ev → Prop
  | .sync _ | .check _ _ _ | .waiting _ _ => False
  | .capture _ | .captured _ | .upload _ _ => False
  | .httpPost b => b = body
  | _ => True

theorem Ev.minor.offSchedule {body : Bytes} {e : Ev} (h : e.minor body) : e.offSchedule := by
  cases e <;> trivial

theorem filterMap_eq_nil {β : Type} {P : Ev → Prop} {f : Ev → Option β}
    (hf : ∀ e, P e → f e = none) {new : List Ev} (h : ∀ e ∈ new, P e) : new.filterMap f = [] :=
  List.filterMap_eq_nil_iff.mpr fun e he => hf e (h e he)

/-- From `w` to `w'` only events with the property `P` were added, no time was lost and the schedule
was left alone. -/
structure Extends (P : Ev → Prop) (w w' : World) : Prop where
  trace : ∃ new, w'.trace = w.trace ++ new ∧ ∀ e ∈ new, P e
  tick : w.reads.tick ≤ w'.reads.tick
  next : w'.nextCaptureTime = w.nextCaptureTime

namespace Extends

variable {P Q : Ev → Prop} {w w₁ w₂ : World}

theorem refl (P : Ev → Prop) (w : World) : Extends P w w :=
  ⟨⟨[], (List.append_nil _).symm, by simp⟩, Nat.le_refl _, rfl⟩

theorem trans (h₁ : Extends P w w₁) (h₂ : Extends P w₁ w₂) : Extends P w w₂ := by
  obtain ⟨⟨new₁, e₁, p₁⟩, t₁, n₁⟩ := h₁
  obtain ⟨⟨new₂, e₂, p₂⟩, t₂, n₂⟩ := h₂
  refine ⟨⟨new₁ ++ new₂, by rw [e₂, e₁, List.append_assoc], ?_⟩, by omega, by rw [n₂, n₁]⟩
  intro e he
  rcases List.mem_append.mp he with he | he
  · exact p₁ e he
  · exact p₂ e he

theorem imp (h : Extends P w w₁) (hPQ : ∀ e, P e → Q e) : Extends Q w w₁ := by
  obtain ⟨⟨new, e, p⟩, t, n⟩ := h
  exact ⟨⟨new, e, fun e he => hPQ e (p e he)⟩, t, n⟩

theorem emit (h : Extends P w w₁) (e : Ev) (he : P e) : Extends P w (w₁.emit e) :=
  h.trans ⟨⟨[e], rfl, by simpa using he⟩, Nat.le_refl _, rfl⟩

theorem nextTick (h : Extends P w w₁) : Extends P w w₁.nextTick :=
  h.trans ⟨⟨[], (List.append_nil _).symm, by simp⟩, Nat.le_succ _, rfl⟩

theorem delay (h : Extends P w w₁) (ms : Nat) (hd : P (.delay w₁.reads.tick ms)) :
    Extends P w (w₁.delay ms) :=
  (h.emit _ hd).nextTick

theorem congr (h : Extends P w w₁) (ht : w₂.trace = w₁.trace) (hr : w₂.reads = w₁.reads)
    (hn : w₂.nextCaptureTime = w₁.nextCaptureTime) : Extends P w w₂ :=
  h.trans ⟨⟨[], by rw [ht, List.append_nil], by simp⟩, by rw [hr], hn⟩

/-- What a view of the trace shows does not change when it shows nothing of what was added. -/
theorem filterMap_eq {β : Type} {f : Ev → Option β} (h : Extends P w w₁)
    (hf : ∀ e, P e → f e = none) : w₁.trace.filterMap f = w.trace.filterMap f := by
  obtain ⟨⟨new, htr, hnew⟩, -, -⟩ := h
  rw [htr, List.filterMap_append, filterMap_eq_nil hf hnew, List.append_nil]

end Extends

/-! ## Letting time pass -/

/-- An event that only lets time pass. -/
def Ev.idle : Ev → Prop
  | .delay _ _ | .progress _ _ => True
  | _ => False

theorem Ev.idle.minor {body : Bytes} {e : Ev} (h : e.idle) : e.minor body := by
  cases e <;> trivial

/-- From `w` to `w'` there were only delays, and nothing was posted. -/
structure Idles (w w' : World) : Prop extends Extends Ev.idle w w' where
  posts : w'.posts = w.posts

namespace Idles

variable {w w₁ w₂ : World}

theorem refl (w : World) : Idles w w := ⟨.refl _ w, rfl⟩

theorem trans (h₁ : Idles w w₁) (h₂ : Idles w₁ w₂) : Idles w w₂ :=
  ⟨h₁.toExtends.trans h₂.toExtends, h₂.posts.trans h₁.posts⟩

theorem nextTick (h : Idles w w₁) : Idles w w₁.nextTick := ⟨h.toExtends.nextTick, h.posts⟩

theorem delay (h : Idles w w₁) (ms : Nat) : Idles w (w₁.delay ms) :=
  ⟨h.toExtends.delay ms trivial, h.posts⟩

theorem progress (h : Idles w w₁) (n size : Nat) : Idles w (w₁.emit (.progress n size)) :=
  ⟨h.toExtends.emit (.progress n size) trivial, h.posts⟩

theorem congr (h : Idles w w₁) (ht : w₂.trace = w₁.trace) (hr : w₂.reads = w₁.reads)
    (hn : w₂.nextCaptureTime = w₁.nextCaptureTime) (hp : w₂.posts = w₁.posts) : Idles w w₂ :=
  ⟨h.toExtends.congr ht hr hn, hp.trans h.posts⟩

theorem minor (h : Idles w w₁) (body : Bytes) : Extends (Ev.minor body) w w₁ :=
  h.toExtends.imp fun _ he => he.minor

end Idles

end Timelapse
end TimerCam

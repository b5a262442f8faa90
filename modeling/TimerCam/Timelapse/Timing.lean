import TimerCam.Lib.Polling
import TimerCam.Timelapse.Attempt
import TimerCam.Timelapse.Schedule

/-!
# Timelapse.Timing

The passes of `loop` in true time: when does a capture start at every minute boundary?

* `TimedPass`     : Wi-Fi is connected, `delay(n)` sleeps `n` ms, and besides it only
  `captureAndUploadImage` takes time.
* `passes_polls`  : the passes of a run are a polling loop whose marks are the minute boundaries.
* `onTime_iff`    : when no boundary is missed, and no wait goes past the schedule.
-/

namespace TimerCam
namespace Timelapse

open Polling

/-- The instant at which a pass has nothing left to do but to wait. -/
def busyUntil (E : Env) (w : World) : Nat :=
  match attempt? E w with
  | some a => (captureAndUploadImage E a).reads.tick
  | none => (maintainWiFi E w).reads.tick

/-- The pass from `w` in true time. Its last event is the `delay` it waits with; that begins when the
pass has nothing else to do, and takes what it is told to. -/
structure TimedPass (E : Env) (w : World) : Prop where
  wifi : E.wifi w.reads.wifi = true
  begins : ∀ k ms, (loop E w).trace.getLast? = some (.delay k ms) →
    E.clock k = E.clock (busyUntil E w)
  sleeps : ∀ k ms, (loop E w).trace.getLast? = some (.delay k ms) →
    E.clock (k + 1) = E.clock k + ms

/-- In the run from `w` a call of `captureAndUploadImage` starts at the true time `s`, that of the
reading that led to it, and ends at `e`. -/
def CaptureSpan (E : Env) (w : World) (s e : Nat) : Prop :=
  ∃ i a, attempt? E (run E i w) = some a ∧ s = E.clock (a.reads.tick - 1) ∧
    e = E.clock (captureAndUploadImage E a).reads.tick

/-- At every minute boundary after the start at which no capture is in progress, one starts within
100 ms. -/
def OnTime (E : Env) (w : World) : Prop :=
  ∀ B, 60000 ∣ B → E.clock w.reads.tick < B →
    (∀ s e, CaptureSpan E w s e → ¬ (s ≤ B ∧ B < e)) →
    ∃ s e, CaptureSpan E w s e ∧ B ≤ s ∧ s < B + 100

/-- No wait goes more than 100 ms past the schedule. -/
def WaitsShort (E : Env) (w : World) : Prop :=
  ∀ i, E.clock (run E (i + 1) w).reads.tick ≤ (run E (i + 1) w).nextCaptureTime * 1000 + 100

/-- How long the pass waits after a capture that started at `s`: until the next minute it was more
than 10 s then, or not. -/
def waitAfterCapture (s : Nat) : Nat := if s / 1000 % 60 < 50 then 1000 else 100

/-- No capture ends so close before a minute boundary that the wait after it leads 100 ms or more past
the boundary. -/
def NoLateEnd (E : Env) (w : World) : Prop :=
  ∀ s e B, CaptureSpan E w s e → 60000 ∣ B → s < B → e ≤ B → e + waitAfterCapture s < B + 100

/-- Every capture ends in the minute in which it started, and so early that the wait after it does not
lead 100 ms or more past that minute. -/
def EndsInMinute (E : Env) (w : World) : Prop :=
  ∀ s e, CaptureSpan E w s e → e + waitAfterCapture s < (s / 60000 + 1) * 60000 + 100

/-! ## A pass -/

theorem maintainWiFi_connected {E : Env} {w : World} (h : E.wifi w.reads.wifi = true) :
    maintainWiFi E w = { w with reads := w.reads.nextWifi } := by
  simp only [maintainWiFi, h, if_true]

theorem nextMinute_gt (t : Nat) : (t : Int) < nextMinute t := by
  rw [nextMinute_eq (Int.natCast_nonneg t)]
  omega

/-- When the reading of a pass is due, the schedule moves on to the minute after it. -/
def nextAfter (E : Env) (w : World) : Int :=
  if (attempt? E w).isSome then nextMinute (E.time (maintainWiFi E w).reads.tick)
  else w.nextCaptureTime

theorem nextAfter_some {E : Env} {w a : World} (h : attempt? E w = some a) :
    nextAfter E w = nextMinute (E.time (maintainWiFi E w).reads.tick) := by
  rw [nextAfter, h]
  rfl

theorem nextAfter_none {E : Env} {w : World} (h : attempt? E w = none) :
    nextAfter E w = w.nextCaptureTime := by
  rw [nextAfter, h]
  rfl

theorem afterAttempt_next (E : Env) (t : Int) (a : World) :
    (afterAttempt E t a).nextCaptureTime = nextMinute t :=
  (afterAttempt_extends E t a).next

/-- A wait before the schedule ends the trace with its `delay`. -/
theorem waitAfter_last {t : Int} {w : World} (h : t < w.nextCaptureTime) :
    (waitAfter t w).nextCaptureTime = w.nextCaptureTime ∧
      ∃ k, (waitAfter t w).reads.tick = k + 1 ∧
        (waitAfter t w).trace.getLast? = some (.delay k (waitMs (w.nextCaptureTime - t))) := by
  rw [waitAfter_delay h]
  exact ⟨rfl, w.reads.tick, rfl, List.getLast?_concat⟩

/-- A pass ends with a `delay`, that depends on the schedule it leaves and on its reading. -/
theorem loop_waits (E : Env) (w : World) :
    let t := E.time (maintainWiFi E w).reads.tick
    ((attempt? E w).isSome ↔ w.nextCaptureTime ≤ t) ∧
      (loop E w).nextCaptureTime = nextAfter E w ∧
      ∃ k, (loop E w).reads.tick = k + 1 ∧
        (loop E w).trace.getLast? = some (.delay k (waitMs (nextAfter E w - t))) := by
  intro t
  have hnext : (maintainWiFi E w).nextCaptureTime = w.nextCaptureTime :=
    (maintainWiFi_aside E w).next
  rcases loop_cases E w with ⟨hdue, hatt, he⟩ | ⟨hdue, hatt, he⟩
  · rw [hnext] at hdue
    refine ⟨by rw [hatt]; simpa using hdue, ?_⟩
    rw [he, nextAfter_some hatt, ← afterAttempt_next E t]
    refine waitAfter_last ?_
    rw [afterAttempt_next]
    exact nextMinute_gt t
  · rw [hnext] at hdue
    refine ⟨by rw [hatt]; simpa using hdue, ?_⟩
    rw [he, nextAfter_none hatt, ← hnext]
    refine waitAfter_last (Int.lt_of_not_ge fun hle => hdue ?_)
    rw [← hnext]
    exact hle

theorem attempt?_tick {E : Env} {w a : World} (h : attempt? E w = some a) :
    a.reads.tick = (maintainWiFi E w).reads.tick + 1 := by
  simp only [attempt?] at h
  split at h
  · cases h
    rfl
  · cases h

theorem tick_le_busyUntil (E : Env) (w : World) : w.reads.tick ≤ busyUntil E w := by
  have hwifi : w.reads.tick ≤ (maintainWiFi E w).reads.tick := (maintainWiFi_aside E w).tick
  unfold busyUntil
  cases hatt : attempt? E w with
  | none => exact hwifi
  | some a =>
    have hcapture : a.reads.tick ≤ (captureAndUploadImage E a).reads.tick :=
      (capture_extends E a).tick
    have := attempt?_tick hatt
    simp only
    omega

namespace TimedPass

variable {E : Env} {w : World}

theorem tick (h : TimedPass E w) : (maintainWiFi E w).reads.tick = w.reads.tick := by
  rw [maintainWiFi_connected h.wifi]
  rfl

theorem next_look (h : TimedPass E w) :
    E.clock (loop E w).reads.tick = E.clock (busyUntil E w) +
      waitMs (nextAfter E w - E.time w.reads.tick) := by
  obtain ⟨-, -, k, htick, hlast⟩ := loop_waits E w
  rw [h.tick] at hlast
  rw [htick, h.sleeps k _ hlast, h.begins k _ hlast]

theorem not_due (h : TimedPass E w) (hdue : ¬ (attempt? E w).isSome) :
    E.clock (busyUntil E w) = E.clock w.reads.tick := by
  have hnone : attempt? E w = none := Option.not_isSome_iff_eq_none.mp hdue
  rw [busyUntil, hnone, ← h.tick]

theorem span (h : TimedPass E w) {a : World} (ha : attempt? E w = some a) :
    E.clock (a.reads.tick - 1) = E.clock w.reads.tick ∧
      E.clock (captureAndUploadImage E a).reads.tick = E.clock (busyUntil E w) := by
  rw [busyUntil, ha, attempt?_tick ha, h.tick, Nat.add_sub_cancel]
  exact ⟨rfl, rfl⟩

end TimedPass

/-! ## The schedule of a run -/

/-- The schedule is not after the next minute boundary. -/
def Scheduled (E : Env) (k : Nat) (next : Int) : Prop :=
  ∀ B : Nat, 60000 ∣ B → E.clock k < B → next * 1000 ≤ B

theorem scheduled_nextMinute (E : Env) (k : Nat) : Scheduled E k (nextMinute (E.time k)) := by
  intro B hB hlt
  rw [nextMinute_eq (Int.natCast_nonneg _), Env.time]
  omega

theorem Scheduled.mono {E : Env} {j k : Nat} {next : Int} (h : Scheduled E j next)
    (hjk : E.clock j ≤ E.clock k) : Scheduled E k next :=
  fun B hB hlt => h B hB (Nat.lt_of_le_of_lt hjk hlt)

theorem setup_scheduled {E : Env} (hclock : Monotone E.clock) {fuel : Nat} {w : World}
    (h : setup E fuel {} = some w) : Scheduled E w.reads.tick w.nextCaptureTime := by
  obtain ⟨reads, w₁, -, hrest⟩ := setup_cases h
  rw [hrest.next]
  exact (scheduled_nextMinute E w₁.reads.tick).mono
    (hclock (Nat.le_trans (Nat.le_succ _) hrest.tick))

theorem nextAfter_scheduled {E : Env} {w : World} (h : TimedPass E w)
    (hw : Scheduled E w.reads.tick w.nextCaptureTime) :
    Scheduled E w.reads.tick (nextAfter E w) := by
  rw [nextAfter, h.tick]
  split
  · exact scheduled_nextMinute E _
  · exact hw

section Run

variable {E : Env} {w : World}

/-- A look that is not due, and whose wait reaches the next boundary, was in the last seconds before
it, and so the wait is the short one. -/
theorem waitMs_early {k B : Nat} {next : Int} (hB : next * 1000 ≤ B)
    (hreach : B ≤ E.clock k + waitMs (next - E.time k)) : waitMs (next - E.time k) ≤ 100 := by
  unfold waitMs Env.time at *
  split at hreach
  · rw [if_pos ‹_›]
    omega
  · rw [if_neg ‹_›]

/-- The wait after a capture, from the reading before it. -/
theorem waitMs_nextMinute (k : Nat) :
    waitMs (nextMinute (E.time k) - E.time k) = waitAfterCapture (E.clock k) := by
  rw [nextMinute_eq (Int.natCast_nonneg _), waitMs, waitAfterCapture, Env.time]
  split
  · rw [if_pos (by omega)]
  · rw [if_neg (by omega)]

theorem run_scheduled (hclock : Monotone E.clock)
    (hw : Scheduled E w.reads.tick w.nextCaptureTime) (hrun : ∀ i, TimedPass E (run E i w)) (i : Nat) :
    Scheduled E (run E i w).reads.tick (run E i w).nextCaptureTime := by
  induction i with
  | zero => exact hw
  | succ i ih =>
    rw [run_succ, (loop_waits E (run E i w)).2.1]
    refine (nextAfter_scheduled (hrun i) ih).mono ?_
    rw [(hrun i).next_look]
    exact Nat.le_add_right_of_le (hclock (tick_le_busyUntil E _))

/-- The passes of a run look at the clock as a polling loop does, with the minute boundaries as its
marks. -/
theorem passes_polls (hclock : Monotone E.clock)
    (hw : Scheduled E w.reads.tick w.nextCaptureTime) (hrun : ∀ i, TimedPass E (run E i w)) :
    Polls (60000 ∣ ·) 100 (fun i => E.clock (run E i w).reads.tick)
      (fun i => E.clock (busyUntil E (run E i w)))
      (fun i => waitMs (nextAfter E (run E i w) - E.time (run E i w).reads.tick))
      (fun i => (attempt? E (run E i w)).isSome) := by
  have hlook : ∀ i, E.clock (run E (i + 1) w).reads.tick = E.clock (busyUntil E (run E i w)) +
      waitMs (nextAfter E (run E i w) - E.time (run E i w).reads.tick) := by
    intro i
    rw [run_succ]
    exact (hrun i).next_look
  have hnext : ∀ i B, 60000 ∣ B → E.clock (run E i w).reads.tick < B →
      nextAfter E (run E i w) * 1000 ≤ B :=
    fun i => nextAfter_scheduled (hrun i) (run_scheduled hclock hw hrun i)
  refine ⟨fun i => hclock (tick_le_busyUntil E _), fun i => (hrun i).not_due, hlook, fun i => ?_,
    fun i B hB hlt hle hdue => ?_, fun i B hB hlt hle => ?_⟩
  · unfold waitMs
    split <;> decide
  · refine waitMs_early (hnext i B hB hlt) ?_
    rwa [← (hrun i).not_due hdue, ← hlook]
  · have hB' := hnext i B hB hlt
    rw [(loop_waits E _).1, (hrun (i + 1)).tick, run_succ, (loop_waits E _).2.1, ← run_succ, Env.time]
    omega

theorem captureSpan_iff (hrun : ∀ i, TimedPass E (run E i w)) (s e : Nat) :
    CaptureSpan E w s e ↔ ∃ i, (attempt? E (run E i w)).isSome ∧
      s = E.clock (run E i w).reads.tick ∧ e = E.clock (busyUntil E (run E i w)) := by
  constructor
  · rintro ⟨i, a, ha, rfl, rfl⟩
    obtain ⟨hs, he⟩ := (hrun i).span ha
    exact ⟨i, by rw [ha]; rfl, hs, he⟩
  · rintro ⟨i, hdue, rfl, rfl⟩
    obtain ⟨a, ha⟩ := Option.isSome_iff_exists.mp hdue
    obtain ⟨hs, he⟩ := (hrun i).span ha
    exact ⟨i, a, ha, hs.symm, he.symm⟩

/-- After a capture the wait is the one its start decides. -/
theorem wait_of_due (hrun : ∀ i, TimedPass E (run E i w)) {i : Nat}
    (hdue : (attempt? E (run E i w)).isSome) :
    waitMs (nextAfter E (run E i w) - E.time (run E i w).reads.tick) =
      waitAfterCapture (E.clock (run E i w).reads.tick) := by
  rw [nextAfter, if_pos hdue, (hrun i).tick, waitMs_nextMinute]

theorem onTime_iff_noLateEnd (hclock : Monotone E.clock)
    (hw : Scheduled E w.reads.tick w.nextCaptureTime) (hrun : ∀ i, TimedPass E (run E i w)) :
    OnTime E w ↔ NoLateEnd E w := by
  have hpolls := (passes_polls hclock hw hrun).prompt_iff (by decide)
  have hspan := captureSpan_iff hrun
  constructor
  · intro htime s e B hse hB hlt hle
    obtain ⟨i, hdue, rfl, rfl⟩ := (hspan s e).mp hse
    rw [← wait_of_due hrun hdue]
    refine hpolls.mp (fun B hB hstart hfree => ?_) i B hdue hB hlt hle
    obtain ⟨s, e, hse, hBs, hsB⟩ := htime B hB hstart fun s e hse => by
      obtain ⟨j, hj, rfl, rfl⟩ := (hspan s e).mp hse
      exact hfree j hj
    obtain ⟨j, hj, rfl, rfl⟩ := (hspan s e).mp hse
    exact ⟨j, hj, hBs, hsB⟩
  · intro hlate B hB hstart hfree
    obtain ⟨i, hdue, hBi, hiB⟩ := hpolls.mpr (fun i B hdue hB hlt hle => by
      rw [wait_of_due hrun hdue]
      exact hlate _ _ B ((hspan _ _).mpr ⟨i, hdue, rfl, rfl⟩) hB hlt hle) B hB hstart
      fun i hdue => hfree _ _ ((hspan _ _).mpr ⟨i, hdue, rfl, rfl⟩)
    exact ⟨_, _, (hspan _ _).mpr ⟨i, hdue, rfl, rfl⟩, hBi, hiB⟩

/-- Only the wait after a capture can go past the schedule, which is then the end of the minute in
which the capture started. -/
theorem waitsShort_iff (hrun : ∀ i, TimedPass E (run E i w)) :
    WaitsShort E w ↔ ∀ s e, CaptureSpan E w s e →
      e + waitAfterCapture s ≤ (s / 60000 + 1) * 60000 + 100 := by
  have hpass : ∀ i, E.clock (run E (i + 1) w).reads.tick = E.clock (busyUntil E (run E i w)) +
      waitMs (nextAfter E (run E i w) - E.time (run E i w).reads.tick) := by
    intro i
    rw [run_succ]
    exact (hrun i).next_look
  have hnext : ∀ i, (run E (i + 1) w).nextCaptureTime = nextAfter E (run E i w) := by
    intro i
    rw [run_succ]
    exact (loop_waits E _).2.1
  have hminute : ∀ i, (attempt? E (run E i w)).isSome →
      nextAfter E (run E i w) * 1000 = (E.clock (run E i w).reads.tick / 60000 + 1) * 60000 := by
    intro i hdue
    rw [nextAfter, if_pos hdue, (hrun i).tick, nextMinute_eq (Int.natCast_nonneg _), Env.time]
    omega
  constructor
  · intro hshort s e hse
    obtain ⟨i, hdue, rfl, rfl⟩ := (captureSpan_iff hrun s e).mp hse
    have hwait := hshort i
    rw [hpass, hnext, hminute i hdue, wait_of_due hrun hdue] at hwait
    omega
  · intro hends i
    rw [hpass, hnext]
    by_cases hdue : (attempt? E (run E i w)).isSome
    · rw [hminute i hdue, wait_of_due hrun hdue]
      have := hends _ _ ((captureSpan_iff hrun _ _).mpr ⟨i, hdue, rfl, rfl⟩)
      omega
    · have hbefore : (E.time (run E i w).reads.tick : Int) < nextAfter E (run E i w) := by
        have hlook := (loop_waits E (run E i w)).1
        rw [(hrun i).tick] at hlook
        rw [nextAfter, if_neg hdue]
        exact Int.not_le.mp fun hle => hdue (hlook.mpr hle)
      rw [(hrun i).not_due hdue]
      unfold waitMs Env.time at *
      split
      · omega
      · omega

theorem waitAfterCapture_pos (s : Nat) : 100 ≤ waitAfterCapture s := by
  unfold waitAfterCapture
  split <;> decide

theorem endsInMinute_iff : EndsInMinute E w ↔ NoLateEnd E w ∧ ∀ s e, CaptureSpan E w s e →
    e + waitAfterCapture s ≤ (s / 60000 + 1) * 60000 + 100 := by
  constructor
  · intro hends
    refine ⟨fun s e B hse hB hlt _ => ?_, fun s e hse => Nat.le_of_lt (hends s e hse)⟩
    have := hends s e hse
    omega
  · rintro ⟨hlate, hle⟩ s e hse
    have hwait := waitAfterCapture_pos s
    have hend := hle s e hse
    exact hlate s e ((s / 60000 + 1) * 60000) hse (Nat.dvd_mul_left _ _) (by omega) (by omega)

end Run

/-- In a run whose clock never goes back and whose passes take their time in captures and delays only,
a capture starts within 100 ms of every minute boundary that finds none in progress, and no wait goes
more than 100 ms past the schedule, exactly when every capture ends in its minute: more than 900 ms
before the end after a start in the first 50 s. The boundaries alone need less: no capture ends within
900 ms of one after a start in the first 50 s of a minute, or on it after a start in the last 10 s. -/
theorem onTime_iff {E : Env} {fuel : Nat} {w : World} (h : setup E fuel {} = some w)
    (hclock : Monotone E.clock) (hrun : ∀ n, TimedPass E (run E n w)) :
    ((OnTime E w ∧ WaitsShort E w) ↔ EndsInMinute E w) ∧ (OnTime E w ↔ NoLateEnd E w) := by
  have htime := onTime_iff_noLateEnd hclock (setup_scheduled hclock h) hrun
  refine ⟨?_, htime⟩
  rw [htime, waitsShort_iff hrun, endsInMinute_iff]

/-! ## A run that misses boundaries -/

/-- No camera, and captures that take 59 s before they fail: they start half a second after a minute
boundary and end half a second before the next. -/
def lateEnv : Env :=
  { noonEnv with
    clock := fun k => if k < 4 then 1706443200000
      else 1706443260500 + 60000 * ((k - 4) / 3) + if (k - 4) % 3 = 0 then 0 else 59000 }

def lateWorld : World := (setup lateEnv 1 {}).getD {}

theorem setup_late : setup lateEnv 1 {} = some lateWorld := rfl

theorem lateEnv_monotone : Monotone lateEnv.clock := by
  refine monotone_nat_of_le_succ fun k => ?_
  simp only [lateEnv]
  split_ifs <;> omega

theorem lateEnv_clock (n i : Nat) (hi : i < 3) :
    lateEnv.clock (4 + 3 * n + i) = 1706443260500 + 60000 * n + if i = 0 then 0 else 59000 := by
  have hdiv : (4 + 3 * n + i - 4) / 3 = n := by omega
  have hmod : (4 + 3 * n + i - 4) % 3 = i := by omega
  simp only [lateEnv]
  rw [if_neg (by omega), hdiv, hmod]

theorem lateEnv_time (n : Nat) : lateEnv.time (4 + 3 * n) = 1706443260 + 60 * n := by
  have hclock := lateEnv_clock n 0 (by decide)
  rw [if_pos rfl] at hclock
  rw [Env.time, ← Nat.add_zero (4 + 3 * n), hclock]
  omega

/-- A capture without a camera passes no instant, and `getLocalTime` one. -/
theorem lateEnv_afterAttempt (t : Int) (a : World) :
    (captureAndUploadImage lateEnv a).reads = a.reads ∧
      (afterAttempt lateEnv t a).reads.tick = a.reads.tick + 1 :=
  ⟨rfl, rfl⟩

/-- Pass number `n` begins half a second after its schedule. -/
structure LatePass (n : Nat) (w : World) : Prop where
  tick : w.reads.tick = 4 + 3 * n
  next : w.nextCaptureTime = 1706443260 + 60 * n

/-- A pass makes an attempt that lasts for 59 s, and then sleeps for 1 s. -/
theorem LatePass.loop {n : Nat} {w : World} (h : LatePass n w) :
    LatePass (n + 1) (loop lateEnv w) ∧ busyUntil lateEnv w = 4 + 3 * n + 1 ∧
      (loop lateEnv w).trace.getLast? = some (.delay (4 + 3 * n + 2) 1000) := by
  have hwifi : lateEnv.wifi w.reads.wifi = true := rfl
  have htick : (maintainWiFi lateEnv w).reads.tick = 4 + 3 * n := by
    rw [maintainWiFi_connected hwifi]
    exact h.tick
  have hnext : (maintainWiFi lateEnv w).nextCaptureTime = 1706443260 + 60 * n := by
    rw [maintainWiFi_connected hwifi]
    exact h.next
  rcases loop_cases lateEnv w with ⟨-, hatt, he⟩ | ⟨hdue, -, -⟩
  · rw [htick, lateEnv_time] at hatt he
    generalize ha : (maintainWiFi lateEnv w).nextTick.emit _ = a at hatt he
    have hatick : a.reads.tick = 4 + 3 * n + 1 := by
      rw [← ha, ← htick]
      rfl
    obtain ⟨hcapture, hafter⟩ := lateEnv_afterAttempt ((1706443260 + 60 * n : Nat) : Int) a
    have hset := afterAttempt_next lateEnv ((1706443260 + 60 * n : Nat) : Int) a
    have hminute : nextMinute ((1706443260 + 60 * n : Nat) : Int) = 1706443260 + 60 * (n + 1) := by
      rw [nextMinute_eq (Int.natCast_nonneg _)]
      omega
    rw [waitAfter_delay (by rw [hset]; exact nextMinute_gt _), hset, hminute] at he
    have hms : waitMs (1706443260 + 60 * (n + 1) - ((1706443260 + 60 * n : Nat) : Int)) = 1000 := by
      rw [waitMs, if_pos (by omega)]
    rw [hms] at he
    have hwait : ∀ (w' : World) (e : Ev) (ms : Nat), ((w'.emit e).delay ms).reads.tick =
        w'.reads.tick + 1 ∧ ((w'.emit e).delay ms).nextCaptureTime = w'.nextCaptureTime ∧
        ((w'.emit e).delay ms).trace.getLast? = some (.delay w'.reads.tick ms) :=
      fun w' e ms => ⟨rfl, rfl, List.getLast?_concat⟩
    obtain ⟨h₁, h₂, h₃⟩ := hwait (afterAttempt lateEnv ((1706443260 + 60 * n : Nat) : Int) a)
      (.waiting (1706443260 + 60 * (n + 1)) ((1706443260 + 60 * n : Nat) : Int)) 1000
    rw [← he] at h₁ h₂ h₃
    refine ⟨⟨?_, ?_⟩, ?_, ?_⟩
    · rw [h₁, hafter, hatick]
      omega
    · rw [h₂, hset, hminute]
      omega
    · rw [busyUntil, hatt]
      simp only [hcapture, hatick]
    · rw [h₃, hafter, hatick]
  · rw [hnext, htick, lateEnv_time] at hdue
    omega

theorem lateEnv_run (n : Nat) : LatePass n (run lateEnv n lateWorld) := by
  induction n with
  | zero => exact ⟨rfl, rfl⟩
  | succ n ih =>
    rw [run_succ]
    exact ih.loop.1

theorem lateEnv_timed (n : Nat) : TimedPass lateEnv (run lateEnv n lateWorld) := by
  obtain ⟨-, hbusy, hlast⟩ := (lateEnv_run n).loop
  have hbegin := lateEnv_clock n 2 (by decide)
  refine ⟨rfl, fun k ms hk => ?_, fun k ms hk => ?_⟩
  · rw [hlast, Option.some.injEq, Ev.delay.injEq] at hk
    obtain ⟨rfl, rfl⟩ := hk
    rw [hbusy, hbegin, lateEnv_clock n 1 (by decide)]
    rfl
  · rw [hlast, Option.some.injEq, Ev.delay.injEq] at hk
    obtain ⟨rfl, rfl⟩ := hk
    have hend := lateEnv_clock (n + 1) 0 (by decide)
    have hindex : 4 + 3 * (n + 1) + 0 = 4 + 3 * n + 2 + 1 := by omega
    rw [hindex, if_pos rfl] at hend
    rw [hend, hbegin, if_neg (by decide)]
    omega

/-- The first capture ends half a second before 20:02:00, and the wait of 1 s goes past it. -/
theorem lateEnv_lateEnd : ¬ NoLateEnd lateEnv lateWorld := by
  intro hlate
  have hspan : CaptureSpan lateEnv lateWorld 1706443260500 1706443319500 :=
    ⟨0, _, rfl, rfl, rfl⟩
  have := hlate _ _ 1706443320000 hspan (by decide) (by decide) (by decide)
  revert this
  decide

theorem boundary_missed :
    setup lateEnv 1 {} = some lateWorld ∧ Monotone lateEnv.clock ∧
      (∀ n, TimedPass lateEnv (run lateEnv n lateWorld)) ∧ ¬ OnTime lateEnv lateWorld := by
  have hiff := onTime_iff_noLateEnd lateEnv_monotone
    (setup_scheduled lateEnv_monotone setup_late) lateEnv_timed
  exact ⟨setup_late, lateEnv_monotone, lateEnv_timed, fun htime => lateEnv_lateEnd (hiff.mp htime)⟩

theorem onTime_iff_late :
    ((OnTime lateEnv lateWorld ∧ WaitsShort lateEnv lateWorld) ↔ EndsInMinute lateEnv lateWorld) ∧
      (OnTime lateEnv lateWorld ↔ NoLateEnd lateEnv lateWorld) :=
  onTime_iff setup_late lateEnv_monotone lateEnv_timed

end Timelapse
end TimerCam

import TimerCam.Timelapse.Attempt
import TimerCam.Timelapse.Schedule

/-!
# Timelapse.Announce

The hour and the minute printed as "Next capture at", against the `nextCaptureTime` just set.

* `getLocalTime_look`     : the two are made from a later look at the clock.
* `checked_right_iff`     : when `checkScheduledCapture` prints the right ones, in terms of the two
  looks; `initialized_right_iff` is the same of `initializeTime`.
* `announcements_right_iff` : the two conditions over runs.
-/

namespace TimerCam
namespace Timelapse

/-- What is printed for a `nextCaptureTime`: its hour and minute. -/
def announcements (tr : List Ev) : List (Int × Nat × Nat) :=
  tr.filterMap fun
    | .announce nextCaptureTime hour minute => some (nextCaptureTime, hour, minute)
    | _ => none

/-- The hour and the minute are those of the local time of `nextCaptureTime`. -/
structure Right (a : Int × Nat × Nat) : Prop where
  hour : a.2.1 = (localtime a.1.toNat).tm_hour
  minute : a.2.2 = (localtime a.1.toNat).tm_min
  valid : a.2.1 < 24 ∧ a.2.2 < 60

/-! ## The second look -/

/-- The instant of the last look of `getLocalTime` called at instant `k`, with `n` looks to spare. -/
def lastLookFrom (E : Env) : Nat → Nat → Nat
  | 0, k => k
  | n + 1, k => if (localtime (E.time k)).isSet then k else lastLookFrom E n (k + 2)

def lastLook (E : Env) (k : Nat) : Nat := lastLookFrom E (E.patience k) k

theorem getLocalTime_look (E : Env) (w : World) :
    (getLocalTime E w).1.2 = localtime (E.time (lastLook E w.reads.tick)) := by
  have hpoll : ∀ (n : Nat) (w : World),
      (pollLocalTime E n w).1.2 = localtime (E.time (lastLookFrom E n w.reads.tick)) := by
    intro n
    induction n with
    | zero => exact fun w => rfl
    | succ n ih =>
      intro w
      rw [pollLocalTime, lastLookFrom]
      split
      · rfl
      · exact ih _
  exact hpoll _ w

/-- Both looks show one hour and one minute. -/
def SameMinute (t s : Nat) : Prop :=
  (localtime s).tm_hour = (localtime t).tm_hour ∧ (localtime s).tm_min = (localtime t).tm_min

/-- The second look shows the minute of the first, which is not the last of an hour. -/
def CheckClear (t s : Nat) : Prop := SameMinute t s ∧ (localtime t).tm_min ≠ 59

/-- The second look shows the minute of the first; but where this is the last of an hour, it shows
the last of the next hour. -/
def InitClear (t s : Nat) : Prop :=
  if (localtime t).tm_min = 59 then
    (localtime s).tm_hour = ((localtime t).tm_hour + 1) % 24 ∧ (localtime s).tm_min = 59
  else SameMinute t s

/-! ## Local hours and minutes -/

theorem tm_min_eq (t : Nat) : (localtime t).tm_min = (t + 28800) / 60 % 60 := rfl

theorem tm_hour_eq (t : Nat) : (localtime t).tm_hour = (t + 28800) / 60 / 60 % 24 := by
  rw [Nat.div_div_eq_div_mul]
  rfl

/-- The local time of the schedule: a minute after that of the reading. -/
theorem localtime_nextMinute (t : Nat) :
    (localtime (nextMinute t).toNat).tm_min = ((t + 28800) / 60 + 1) % 60 ∧
      (localtime (nextMinute t).toNat).tm_hour = ((t + 28800) / 60 + 1) / 60 % 24 := by
  have hnext : (nextMinute t).toNat = (t / 60 + 1) * 60 := by
    rw [nextMinute_eq (Int.natCast_nonneg t)]
    omega
  have hdiv : ((nextMinute t).toNat + 28800) / 60 = (t + 28800) / 60 + 1 := by
    rw [hnext]
    omega
  rw [tm_min_eq, tm_hour_eq, hdiv]
  exact ⟨rfl, rfl⟩

theorem right_iff (t hour minute : Nat) :
    Right (nextMinute t, hour, minute) ↔
      hour = ((t + 28800) / 60 + 1) / 60 % 24 ∧ minute = ((t + 28800) / 60 + 1) % 60 := by
  obtain ⟨hmin, hhour⟩ := localtime_nextMinute t
  constructor
  · rintro ⟨h₁, h₂, -⟩
    exact ⟨h₁.trans hhour, h₂.trans hmin⟩
  · rintro ⟨rfl, rfl⟩
    exact ⟨hhour.symm, hmin.symm, Nat.mod_lt _ (by decide), Nat.mod_lt _ (by decide)⟩

/-- `timeinfo.tm_min + 1` is right unless a minute or an hour ends before it is read, or with it. -/
theorem checked_right_iff (t s : Nat) :
    Right (nextMinute t, (localtime s).tm_hour, (localtime s).tm_min + 1) ↔ CheckClear t s := by
  rw [right_iff, CheckClear, SameMinute]
  simp only [tm_min_eq, tm_hour_eq]
  generalize (t + 28800) / 60 = T
  generalize (s + 28800) / 60 = S
  omega

theorem initialized_right_iff (t s : Nat) :
    Right (nextMinute t, (localtime s).tm_hour, ((localtime s).tm_min + 1) % 60) ↔
      InitClear t s := by
  rw [right_iff, InitClear, SameMinute]
  simp only [tm_min_eq, tm_hour_eq]
  generalize (t + 28800) / 60 = T
  generalize (s + 28800) / 60 = S
  split
  · omega
  · omega

/-! ## Over runs -/

/-- What `checkScheduledCapture` prints after its attempt `a`, made for the reading before. -/
def announced (E : Env) (a : World) : Int × Nat × Nat :=
  let timeinfo := localtime (E.time (lastLook E (captureAndUploadImage E a).reads.tick))
  (nextMinute (E.time (a.reads.tick - 1)), timeinfo.tm_hour, timeinfo.tm_min + 1)

theorem announcements_aside {w w' : World} (h : Extends Ev.aside w w') :
    announcements w'.trace = announcements w.trace := by
  refine h.filterMap_eq fun e he => ?_
  cases e <;> first | rfl | exact he.elim

theorem announcements_capture (E : Env) (w : World) :
    announcements (captureAndUploadImage E w).trace = announcements w.trace := by
  refine (captureAndUploadImage_view (fun e he => ?_) E w).trans (List.append_nil _)
  cases e <;> first | rfl | exact he.elim

theorem announcements_emit (w : World) (e : Ev) :
    announcements (w.emit e).trace = announcements w.trace ++ announcements [e] :=
  List.filterMap_append

theorem announcements_loop (E : Env) (w : World) :
    announcements (loop E w).trace =
      announcements w.trace ++ (attempt? E w).toList.map (announced E) := by
  rw [← announcements_aside (maintainWiFi_aside E w)]
  rcases loop_cases E w with ⟨-, hatt, he⟩ | ⟨-, hatt, he⟩
  · let a := (maintainWiFi E w).nextTick.emit
      (.check (maintainWiFi E w).reads.tick (E.time (maintainWiFi E w).reads.tick) true)
    let w' := { captureAndUploadImage E a with
      nextCaptureTime := nextMinute (E.time (maintainWiFi E w).reads.tick) }
    have hcapture : announcements w'.trace = announcements (maintainWiFi E w).trace :=
      (announcements_capture E a).trans ((announcements_emit _ _).trans (List.append_nil _))
    have hafter : announcements (afterAttempt E (E.time (maintainWiFi E w).reads.tick) a).trace =
        announcements w'.trace ++ [announced E a] := by
      rw [← announcements_aside (getLocalTime_idles E w').aside]
      refine (announcements_emit _ _).trans ?_
      rw [getLocalTime_look]
      rfl
    rw [he, hatt, announcements_aside (waitAfter_aside _ _), hafter, hcapture]
    rfl
  · rw [he, hatt, announcements_aside (waitAfter_aside _ _), announcements_emit]
    rfl

theorem announcements_run (E : Env) (n : Nat) (w : World) :
    announcements (run E n w).trace =
      announcements w.trace ++ (attempts E n w).map (announced E) := by
  induction n with
  | zero => exact (List.append_nil _).symm
  | succ n ih =>
    rw [run_succ, announcements_loop, ih, attempts_succ, List.map_append, List.append_assoc]

/-- What `setup` has done when its wait for the clock is over. -/
def synced (E : Env) (fuel : Nat) : Option World :=
  (connectToWiFi E.wifi E.uptime fuel {}).bind fun reads => syncLoop E fuel { reads := reads }

/-- `setup` prints the time for the reading that follows the wait, and looks again after it. -/
theorem announcements_setup {E : Env} {fuel : Nat} {w : World} (h : setup E fuel {} = some w) :
    ∃ w₀, synced E fuel = some w₀ ∧ announcements w.trace =
      [(nextMinute (E.time w₀.reads.tick),
        (localtime (E.time (lastLook E (w₀.reads.tick + 1)))).tm_hour,
        ((localtime (E.time (lastLook E (w₀.reads.tick + 1)))).tm_min + 1) % 60)] := by
  simp only [setup] at h
  unfold synced
  split at h
  · cases h
  · rename_i reads hconnect
    simp only [initializeTime, Option.map_eq_some_iff] at h
    obtain ⟨w₀, hsync, rfl⟩ := h
    refine ⟨w₀, by rw [hconnect]; exact hsync, ?_⟩
    have hwait : announcements w₀.trace = [] :=
      (announcements_aside (syncLoop_idles E fuel _ hsync).aside).trans rfl
    let w₁ := { w₀.nextTick.emit (.sync (E.time w₀.reads.tick)) with
      nextCaptureTime := nextMinute (E.time w₀.reads.tick) }
    have hset : announcements w₁.trace = [] :=
      (announcements_emit _ _).trans (by rw [World.nextTick, hwait]; rfl)
    refine (announcements_emit _ _).trans ?_
    rw [announcements_aside (getLocalTime_idles E w₁).aside, hset, getLocalTime_look]
    rfl

/-- In every run the hour and minute printed are right exactly when the second look of `setup` shows
the minute of the first (or, in the last minute of an hour, the last of the next), and that of every
pass with an attempt shows the minute of its reading, which is not the last of an hour. -/
theorem announcements_right_iff {E : Env} {fuel : Nat} {w : World}
    (h : setup E fuel {} = some w) (n : Nat) :
    ∃ w₀, synced E fuel = some w₀ ∧
      ((∀ a ∈ announcements (run E n w).trace, Right a) ↔
        InitClear (E.time w₀.reads.tick) (E.time (lastLook E (w₀.reads.tick + 1))) ∧
        ∀ a ∈ attempts E n w, CheckClear (E.time (a.reads.tick - 1))
          (E.time (lastLook E (captureAndUploadImage E a).reads.tick))) := by
  obtain ⟨w₀, hsync, hsetup⟩ := announcements_setup h
  refine ⟨w₀, hsync, ?_⟩
  rw [announcements_run, hsetup, List.forall_mem_append, List.forall_mem_singleton,
    initialized_right_iff, List.forall_mem_map]
  simp only [announced, checked_right_iff]

/-- Two passes, with an attempt each. -/
theorem announcements_right_iff_twice :
    (attempts minuteEnv 2 minuteWorld).length = 2 ∧
    ∃ w₀, synced minuteEnv 1 = some w₀ ∧
      ((∀ a ∈ announcements (run minuteEnv 2 minuteWorld).trace, Right a) ↔
        InitClear (minuteEnv.time w₀.reads.tick)
          (minuteEnv.time (lastLook minuteEnv (w₀.reads.tick + 1))) ∧
        ∀ a ∈ attempts minuteEnv 2 minuteWorld, CheckClear (minuteEnv.time (a.reads.tick - 1))
          (minuteEnv.time (lastLook minuteEnv (captureAndUploadImage minuteEnv a).reads.tick))) :=
  ⟨by decide +kernel, announcements_right_iff setup_minute 2⟩

/-- `setup` at 20:58:59 local time, and the first pass at 20:59:00. -/
def lastMinuteEnv : Env :=
  { noonEnv with clock := fun k => if k < 4 then 1706446739000 else 1706446740000 }

def lastMinuteWorld : World := (setup lastMinuteEnv 1 {}).getD {}

theorem minute_sixty :
    setup lastMinuteEnv 1 {} = some lastMinuteWorld ∧
      (1706446800, 20, 60) ∈ announcements (run lastMinuteEnv 1 lastMinuteWorld).trace ∧
      ¬ Right (1706446800, 20, 60) := by
  have hattempt : (attempts lastMinuteEnv 1 lastMinuteWorld).map (announced lastMinuteEnv) =
      [(1706446800, 20, 60)] := rfl
  refine ⟨rfl, ?_, fun hright => absurd hright.valid.2 (by decide)⟩
  rw [announcements_run, hattempt]
  exact List.mem_append_right _ (List.mem_singleton_self _)

end Timelapse
end TimerCam

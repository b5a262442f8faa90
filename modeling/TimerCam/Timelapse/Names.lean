import TimerCam.Timelapse.Sketch

/-!
# Timelapse.Names

The names under which frames are uploaded. A name shows the local time of an instant after the
warm-up to the second, and a warm-up takes nearly two.

* `stamp_lt`       : names sort as the seconds they show, through every roll-over of the calendar.
* `warmUp_elapsed` : a warm-up that reaches its last frame has waited nine times 200 ms.
* `names_increase` : over runs, each upload has a later name than all before it.
-/

namespace TimerCam
namespace Timelapse

open Octets Calendar

/-! ## The order of names -/

/-- The text that `strftime` makes of a year with four digits. -/
def stampText (t : Tm) : Bytes :=
  pad 4 (t.tm_year + 1900) ++ (pad 2 (t.tm_mon + 1) ++ (pad 2 t.tm_mday ++ (text "_" ++
    (pad 2 t.tm_hour ++ (pad 2 t.tm_min ++ pad 2 t.tm_sec)))))

def stamp (now : Nat) : Bytes := stampText (localtime now) ++ text ".jpg"

theorem strftime_eq {t : Tm} (h : t.tm_year + 1900 < 10000) : strftime 20 t = some (stampText t) := by
  have hdec : decimal (t.tm_year + 1900) = pad 4 (t.tm_year + 1900) := decimal_eq_pad (by omega) h
  have hsep : (text "_").length = 1 := rfl
  unfold strftime
  rw [hdec, if_pos (by simp only [List.length_append, pad_length, hsep]; omega)]
  simp only [stampText, List.append_assoc]

theorem pad_append_lt {w n m : Nat} {x y : Bytes} (h : n < m ∧ m < 10 ^ w ∨ n = m ∧ x < y) :
    pad w n ++ x < pad w m ++ y := by
  rcases h with ⟨h, hm⟩ | ⟨rfl, h⟩
  · exact append_lt (by simp) (pad_lt h hm) x y
  · exact append_lt_left _ h

/-- The date first, then the time of day. -/
structure Tm.Before (a b : Tm) : Prop where
  fields : a.tm_year < b.tm_year ∨ a.tm_year = b.tm_year ∧
    (a.tm_mon < b.tm_mon ∨ a.tm_mon = b.tm_mon ∧
    (a.tm_mday < b.tm_mday ∨ a.tm_mday = b.tm_mday ∧
    (a.tm_hour < b.tm_hour ∨ a.tm_hour = b.tm_hour ∧
    (a.tm_min < b.tm_min ∨ a.tm_min = b.tm_min ∧ a.tm_sec < b.tm_sec))))

/-- The ranges of the fields, for years up to 9999. -/
structure Tm.InRange (t : Tm) : Prop where
  year : t.tm_year + 1900 < 10000
  mon : t.tm_mon < 12
  mday : t.tm_mday < 32
  hour : t.tm_hour < 24
  min : t.tm_min < 60
  sec : t.tm_sec < 60

theorem stampText_lt {a b : Tm} (hb : b.InRange) (h : a.Before b) : stampText a < stampText b := by
  obtain ⟨h₁, h₂, h₃, h₄, h₅, h₆⟩ := hb
  obtain ⟨h⟩ := h
  refine pad_append_lt ?_
  rcases h with h | ⟨e, h⟩
  · exact .inl ⟨by omega, h₁⟩
  refine .inr ⟨by rw [e], pad_append_lt ?_⟩
  rcases h with h | ⟨e, h⟩
  · exact .inl ⟨by omega, by omega⟩
  refine .inr ⟨by rw [e], pad_append_lt ?_⟩
  rcases h with h | ⟨e, h⟩
  · exact .inl ⟨h, by omega⟩
  refine .inr ⟨e, append_lt_left _ (pad_append_lt ?_)⟩
  rcases h with h | ⟨e, h⟩
  · exact .inl ⟨h, by omega⟩
  refine .inr ⟨e, pad_append_lt ?_⟩
  rcases h with h | ⟨e, h⟩
  · exact .inl ⟨h, by omega⟩
  exact .inr ⟨e, pad_lt h (by omega)⟩

/-- The time `t` since the epoch, of the date `date`, as a `struct tm`. -/
def tmOf (date : Date) (t : Nat) : Tm :=
  { tm_sec := t % 60, tm_min := t / 60 % 60, tm_hour := t / 3600 % 24, tm_mday := date.day + 1,
    tm_mon := date.month, tm_year := date.year - 1900 }

theorem localtime_eq (now : Nat) :
    localtime now = tmOf (Date.ofDays ((now + gmtOffset_sec) / 86400)) (now + gmtOffset_sec) := rfl

theorem tmOf_before_of_date {a b : Date} (h : a.Before b) (ha : 1900 ≤ a.year) (s t : Nat) :
    (tmOf a s).Before (tmOf b t) := by
  constructor
  simp only [tmOf]
  rcases h with hy | ⟨hy, hm | ⟨hm, hd⟩⟩
  · exact .inl (by omega)
  · exact .inr ⟨by omega, .inl hm⟩
  · exact .inr ⟨by omega, .inr ⟨hm, .inl (by omega)⟩⟩

theorem tmOf_before_of_time (date : Date) {s t : Nat} (hday : s / 86400 = t / 86400) (h : s < t) :
    (tmOf date s).Before (tmOf date t) := by
  refine ⟨.inr ⟨rfl, .inr ⟨rfl, .inr ⟨rfl, ?_⟩⟩⟩⟩
  simp only [tmOf]
  omega

theorem localtime_before {s t : Nat} (h : s < t) : (localtime s).Before (localtime t) := by
  have hlt : s + gmtOffset_sec < t + gmtOffset_sec := Nat.add_lt_add_right h _
  rw [localtime_eq, localtime_eq]
  by_cases hday : (s + gmtOffset_sec) / 86400 = (t + gmtOffset_sec) / 86400
  · rw [hday]
    exact tmOf_before_of_time _ hday hlt
  · have hdays : (s + gmtOffset_sec) / 86400 < (t + gmtOffset_sec) / 86400 :=
      Nat.lt_of_le_of_ne (Nat.div_le_div_right (Nat.le_of_lt hlt)) hday
    have hyear : 1900 ≤ (Date.ofDays ((s + gmtOffset_sec) / 86400)).year :=
      Nat.le_trans (by decide) (Date.le_year _)
    exact tmOf_before_of_date (Date.ofDays_lt hdays) hyear _ _

theorem tmOf_inRange {date : Date} (hm : date.month < 12) (hd : date.day < 31) {t : Nat}
    (hy : (tmOf date t).tm_year + 1900 < 10000) : (tmOf date t).InRange where
  year := hy
  mon := hm
  mday := Nat.succ_lt_succ hd
  hour := Nat.mod_lt _ (by omega)
  min := Nat.mod_lt _ (by omega)
  sec := Nat.mod_lt _ (by omega)

theorem localtime_inRange {t : Nat} (h : (localtime t).tm_year + 1900 < 10000) :
    (localtime t).InRange := by
  rw [localtime_eq] at h ⊢
  exact tmOf_inRange (Date.month_lt _) (Date.day_lt _) h

theorem stamp_lt {s t : Nat} (h : s < t) (ht : (localtime t).tm_year + 1900 < 10000) :
    stamp s < stamp t :=
  append_lt (by simp [stampText]) (stampText_lt (localtime_inRange ht) (localtime_before h)) _ _

/-! ## The instant of a name -/

/-- From the instant `lo` on, the clock never steps back and shows a local year from 2017 to 9999;
and every `delay` in the trace takes its time. -/
structure RealClock (E : Env) (lo : Nat) (tr : List Ev) : Prop where
  mono : ∀ j k, lo ≤ j → j ≤ k → E.clock j ≤ E.clock k
  year : ∀ k, lo ≤ k → 2017 ≤ (localtime (E.time k)).tm_year + 1900 ∧
    (localtime (E.time k)).tm_year + 1900 ≤ 9999
  delays : ∀ k ms, lo ≤ k → .delay k ms ∈ tr → E.clock k + ms ≤ E.clock (k + 1)

theorem RealClock.of_append {E : Env} {lo : Nat} {a b : List Ev} (h : RealClock E lo (a ++ b)) :
    RealClock E lo a :=
  ⟨h.mono, h.year, fun k ms hk hm => h.delays k ms hk (List.mem_append_left b hm)⟩

theorem RealClock.of_extends {P : Ev → Prop} {E : Env} {lo : Nat} {w w' : World}
    (h : RealClock E lo w'.trace) (he : Extends P w w') : RealClock E lo w.trace := by
  obtain ⟨⟨new, htr, -⟩, -, -⟩ := he
  rw [htr] at h
  exact h.of_append

/-- The name is that of the first instant after the warm-up. -/
theorem nameFor_stamp {E : Env} (fb : Frame) {w : World}
    (h : 2017 ≤ (localtime (E.time w.reads.tick)).tm_year + 1900 ∧
      (localtime (E.time w.reads.tick)).tm_year + 1900 ≤ 9999) :
    (nameFor E fb w).1 = some (stamp (E.time w.reads.tick)) ∧
      (nameFor E fb w).2.reads.tick = w.reads.tick + 1 := by
  have hset : (localtime (E.time w.reads.tick)).isSet = true := by
    simp only [Tm.isSet, decide_eq_true_eq]
    omega
  have hlocal : getLocalTime E ((w.read (some fb)).read (some fb)) =
      ((true, localtime (E.time w.reads.tick)),
        ((w.read (some fb)).read (some fb)).nextTick) := by
    unfold getLocalTime
    cases E.patience ((w.read (some fb)).read (some fb)).reads.tick with
    | zero =>
      rw [pollLocalTime]
      simp only [World.read, hset]
    | succ n =>
      rw [pollLocalTime]
      simp only [World.read, hset, if_true]
  have hfmt := strftime_eq (t := localtime (E.time w.reads.tick)) (by omega)
  unfold nameFor getTimestampFilename
  rw [hlocal]
  simp only [if_true, hfmt, Option.map_some]
  exact ⟨rfl, rfl⟩

theorem warmUp_elapsed {E : Env} {lo n : Nat} {w : World}
    (hr : (warmUp (World.get E) (·.cam.fb.isSome) (fun w => w.free.delay 200) (n + 1) w).1 = true)
    (hlo : lo ≤ w.reads.tick)
    (hclock : RealClock E lo (warmUp (World.get E) (·.cam.fb.isSome)
      (fun w => w.free.delay 200) (n + 1) w).2.trace) :
    E.clock w.reads.tick + 200 * n ≤ E.clock (warmUp (World.get E) (·.cam.fb.isSome)
      (fun w => w.free.delay 200) (n + 1) w).2.reads.tick := by
  induction n generalizing w with
  | zero =>
    rw [warmUp]
    split
    · exact Nat.le_refl _
    · exact Nat.le_refl _
  | succ n ih =>
    rw [warmUp] at hr hclock ⊢
    cases hg : (w.get E).cam.fb.isSome with
    | false => simp [hg] at hr
    | true =>
      simp only [hg, if_true, Nat.add_one_ne_zero, if_false] at hr hclock ⊢
      have hlo' : lo ≤ ((w.get E).free.delay 200).reads.tick := Nat.le_succ_of_le hlo
      have hrest := ih hr hlo' hclock
      have hext := warmUp_extends E [] (n + 1) ((w.get E).free.delay 200)
      have hdelay := (hclock.of_extends hext).delays w.reads.tick 200 hlo (by
        simp [World.delay, World.emit, World.nextTick, World.free, World.get])
      have htick : ((w.get E).free.delay 200).reads.tick = w.reads.tick + 1 := rfl
      rw [htick] at hrest
      omega

/-! ## Over runs -/

def uploads (tr : List Ev) : List Bytes :=
  tr.filterMap fun
    | .upload fileName _ => some fileName
    | _ => none

theorem uploads_append (a b : List Ev) : uploads (a ++ b) = uploads a ++ uploads b :=
  List.filterMap_append

/-- The names so far increase, and are those of instants passed since `lo`. -/
structure Named (E : Env) (lo : Nat) (w : World) : Prop where
  increase : (uploads w.trace).Pairwise (· < ·)
  past : ∀ x ∈ uploads w.trace, ∃ k, lo ≤ k ∧ k < w.reads.tick ∧ x = stamp (E.time k)
  tick : lo ≤ w.reads.tick

def Ev.noUpload (e : Ev) : Prop := ∀ fileName folderPath, e ≠ .upload fileName folderPath

theorem Ev.minor.noUpload {body : Bytes} {e : Ev} (h : e.minor body) : e.noUpload := by
  rintro fileName folderPath rfl
  exact h

theorem uploads_extends {w w' : World} (he : Extends Ev.noUpload w w') :
    uploads w'.trace = uploads w.trace := by
  refine he.filterMap_eq fun e he => ?_
  cases e <;> first | rfl | exact absurd rfl (he _ _)

theorem Named.extends {E : Env} {lo : Nat} {w w' : World} (h : Named E lo w)
    (he : Extends Ev.noUpload w w') : Named E lo w' := by
  have hup := uploads_extends he
  have htick := he.tick
  refine ⟨by rw [hup]; exact h.increase, ?_, Nat.le_trans h.tick htick⟩
  rw [hup]
  intro x hx
  obtain ⟨k, h₁, h₂, h₃⟩ := h.past x hx
  exact ⟨k, h₁, by omega, h₃⟩

theorem Named.minor {E : Env} {lo : Nat} {body : Bytes} {w w' : World} (h : Named E lo w)
    (he : Extends (Ev.minor body) w w') : Named E lo w' :=
  h.extends (he.imp fun _ he => he.noUpload)

/-- An upload under the name of the instant `k`, a second or more after `w`. -/
theorem Named.upload {E : Env} {lo k : Nat} {w w' : World} {tr : List Ev} (h : Named E lo w)
    (hclock : RealClock E lo tr) (hext : Extends Ev.noUpload w w') (hk : w.reads.tick ≤ k)
    (hk' : k < w'.reads.tick) (helapsed : E.clock w.reads.tick + 1000 ≤ E.clock k)
    (folderPath : Bytes) : Named E lo (w'.emit (.upload (stamp (E.time k)) folderPath)) := by
  have hlo : lo ≤ k := Nat.le_trans h.tick hk
  have hup : uploads (w'.emit (.upload (stamp (E.time k)) folderPath)).trace =
      uploads w.trace ++ [stamp (E.time k)] := by
    rw [← uploads_extends hext]
    exact uploads_append _ _
  refine ⟨?_, ?_, Nat.le_trans h.tick hext.tick⟩
  · rw [hup, List.pairwise_append]
    refine ⟨h.increase, List.pairwise_singleton _ _, fun x hx y hy => ?_⟩
    obtain rfl := List.mem_singleton.mp hy
    obtain ⟨j, h₁, h₂, rfl⟩ := h.past x hx
    have hle : E.clock j ≤ E.clock w.reads.tick := hclock.mono j _ h₁ (Nat.le_of_lt h₂)
    have hlt : E.time j < E.time k := by
      simp only [Env.time]
      omega
    have hyear := (hclock.year k hlo).2
    exact stamp_lt hlt (by omega)
  · rw [hup]
    intro x hx
    rcases List.mem_append.mp hx with hx | hx
    · obtain ⟨j, h₁, h₂, h₃⟩ := h.past x hx
      have htick := hext.tick
      exact ⟨j, h₁, Nat.lt_of_lt_of_le h₂ htick, h₃⟩
    · obtain rfl := List.mem_singleton.mp hx
      exact ⟨k, hlo, hk', rfl⟩

theorem capture_named {E : Env} {lo : Nat} {w : World} (h : Named E lo w)
    (hclock : RealClock E lo (captureAndUploadImage E w).trace) :
    Named E lo (captureAndUploadImage E w) := by
  have h₀ : Named E lo (w.emit (.capture w.reads.tick)) :=
    h.extends ((Extends.refl _ w).emit _ (by intro n f hf; cases hf))
  have hlast : ∀ w' : World, Named E lo w' → Named E lo (w'.emit (.captured w'.reads.tick)) :=
    fun w' h' => h'.extends ((Extends.refl _ w').emit _ (by intro n f hf; cases hf))
  obtain ⟨w', he, ⟨body, hext⟩ | ⟨fb, body, hwarm, hext⟩⟩ := capture_cases E w
  · rw [he]
    exact hlast w' (h₀.minor hext)
  · rw [he] at hclock ⊢
    refine hlast w' (Named.minor ?_ hext)
    have hclock' := RealClock.of_append hclock
    have hframes := warmUp_extends E body 10 (w.emit (.capture w.reads.tick))
    have hname := nameFor_extends E fb body (warmUpFrames E (w.emit (.capture w.reads.tick))).2
    have hlo : lo ≤ (warmUpFrames E (w.emit (.capture w.reads.tick))).2.reads.tick :=
      Nat.le_trans h₀.tick hframes.tick
    obtain ⟨hstamp, htick⟩ := nameFor_stamp fb (hclock'.year _ hlo)
    have hbefore := (hclock'.of_extends hext).of_append.of_extends hname
    have helapsed := warmUp_elapsed (n := 9) hwarm h₀.tick hbefore
    rw [hstamp, Option.getD_some]
    refine h₀.upload hclock' ((hframes.trans hname).imp fun _ he => he.noUpload) hframes.tick ?_ ?_
      folderPath
    · rw [htick]
      exact Nat.lt_succ_self _
    · exact Nat.le_trans (by omega) helapsed

theorem Named.congr {E : Env} {lo : Nat} {w w' : World} (h : Named E lo w)
    (ht : w'.trace = w.trace) (hr : w.reads.tick ≤ w'.reads.tick) : Named E lo w' := by
  refine ⟨by rw [ht]; exact h.increase, fun x hx => ?_, Nat.le_trans h.tick hr⟩
  rw [ht] at hx
  obtain ⟨k, h₁, h₂, h₃⟩ := h.past x hx
  exact ⟨k, h₁, by omega, h₃⟩

theorem waitAfter_noUpload (t : Int) (w : World) : Extends Ev.noUpload w (waitAfter t w) := by
  refine waitAfter_extends ?_ ?_ t w
  · rintro next t n f ⟨⟩
  · rintro k ms n f ⟨⟩

theorem waitAfter_named {E : Env} {lo : Nat} {t : Int} {w : World} (h : Named E lo w) :
    Named E lo (waitAfter t w) :=
  h.extends (waitAfter_noUpload t w)

theorem RealClock.of_waitAfter {E : Env} {lo : Nat} {t : Int} {w : World}
    (h : RealClock E lo (waitAfter t w).trace) : RealClock E lo w.trace :=
  h.of_extends (waitAfter_noUpload t w)

/-- The capture of a pass that is due sees the clock of the pass. -/
theorem RealClock.of_pass {E : Env} {lo : Nat} {t next : Int} {w w' : World}
    (h : RealClock E lo (waitAfter t w').trace)
    (hext : Extends (Ev.minor []) { w with nextCaptureTime := next } w') :
    RealClock E lo w.trace := by
  have hset : RealClock E lo { w with nextCaptureTime := next : World }.trace :=
    h.of_waitAfter.of_extends hext
  exact hset

theorem RealClock.of_check {E : Env} {lo : Nat} {w : World}
    (h : RealClock E lo (checkScheduledCapture E w).trace) : RealClock E lo w.trace := by
  rcases checkScheduledCapture_cases E w with ⟨-, he⟩ | ⟨-, he⟩
  · rw [he] at h
    exact h.of_waitAfter.of_append
  · rw [he] at h
    exact ((h.of_pass (afterAttempt_extends E _ _)).of_extends
      (capture_extends E _)).of_append.of_append

theorem checkScheduledCapture_named {E : Env} {lo : Nat} {w : World} (h : Named E lo w)
    (hclock : RealClock E lo (checkScheduledCapture E w).trace) :
    Named E lo (checkScheduledCapture E w) := by
  have hcheck : ∀ due, Named E lo
      (w.nextTick.emit (.check w.reads.tick (E.time w.reads.tick) due)) := fun due =>
    h.extends ((Extends.refl _ w).nextTick.emit _ (by intro n f hf; cases hf))
  rcases checkScheduledCapture_cases E w with ⟨-, he⟩ | ⟨-, he⟩
  · rw [he]
    exact waitAfter_named (hcheck false)
  · rw [he] at hclock ⊢
    have hext := afterAttempt_extends E (E.time w.reads.tick)
      (w.nextTick.emit (.check w.reads.tick (E.time w.reads.tick) true))
    have hcapture := capture_named (hcheck true) (hclock.of_pass hext)
    have hset : Named E lo { captureAndUploadImage E (w.nextTick.emit
        (.check w.reads.tick (E.time w.reads.tick) true)) with
        nextCaptureTime := nextMinute (E.time w.reads.tick) } :=
      hcapture.congr rfl (Nat.le_refl _)
    exact waitAfter_named (hset.minor hext)

theorem run_named {E : Env} {lo : Nat} {w : World} (h : Named E lo w) (n : Nat)
    (hclock : RealClock E lo (run E n w).trace) : Named E lo (run E n w) := by
  induction n with
  | zero => exact h
  | succ n ih =>
    rw [run_succ] at hclock ⊢
    have hwifi : Extends (Ev.minor []) (run E n w) (maintainWiFi E (run E n w)) :=
      maintainWiFi_extends trivial (fun _ _ => trivial) E _
    exact checkScheduledCapture_named ((ih (hclock.of_check.of_extends hwifi)).minor hwifi) hclock

theorem setup_named {E : Env} {fuel : Nat} {w : World} (h : setup E fuel {} = some w) :
    Named E w.reads.tick w := by
  obtain ⟨reads, w₁, hwait, hrest⟩ := setup_cases h
  have hnone : uploads w.trace = [] := by
    rw [uploads_extends (hrest.imp fun _ he => he.noUpload)]
    refine (uploads_append _ _).trans ?_
    rw [World.nextTick, uploads_extends (hwait.imp fun _ he => he.noUpload)]
    rfl
  refine ⟨by rw [hnone]; exact .nil, ?_, Nat.le_refl _⟩
  rw [hnone]
  intro x hx
  cases hx

/-- In every run whose clock is right from the end of `setup` on, the names of the uploads increase
from one to the next, and no two are the same. -/
theorem names_increase {E : Env} {fuel : Nat} {w : World} (h : setup E fuel {} = some w) (n : Nat)
    (hclock : RealClock E w.reads.tick (run E n w).trace) :
    (uploads (run E n w).trace).Pairwise (· < ·) ∧ (uploads (run E n w).trace).Nodup := by
  have hinc := (run_named (setup_named h) n hclock).increase
  refine ⟨hinc, List.Pairwise.imp ?_ hinc⟩
  rintro a _ hlt rfl
  exact List.lt_irrefl a hlt

theorem minuteEnv_delays {k ms : Nat} (h : .delay k ms ∈ (run minuteEnv 2 minuteWorld).trace) :
    k < 100 ∧ ms ≤ 60000 := by
  have hall : ((run minuteEnv 2 minuteWorld).trace.all fun
      | .delay k ms => k < 100 && ms ≤ 60000
      | _ => true) = true := by decide +kernel
  simpa using List.all_eq_true.mp hall _ h

/-- Two passes, with an upload each. -/
theorem names_increase_twice :
    uploads (run minuteEnv 2 minuteWorld).trace =
        [text "20240128_201400.jpg", text "20240128_202700.jpg"] ∧
      (uploads (run minuteEnv 2 minuteWorld).trace).Pairwise (· < ·) ∧
      (uploads (run minuteEnv 2 minuteWorld).trace).Nodup := by
  refine ⟨by decide +kernel, names_increase setup_minute 2 ⟨?_, ?_, ?_⟩⟩
  · intro j k _ hjk
    simp only [minuteEnv]
    omega
  · intro k _
    rw [minuteEnv_year]
    decide
  · intro k ms _ hmem
    obtain ⟨hk, hms⟩ := minuteEnv_delays hmem
    simp only [minuteEnv]
    omega

end Timelapse
end TimerCam

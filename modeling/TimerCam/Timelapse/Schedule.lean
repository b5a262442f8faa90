import TimerCam.Lib.History
import TimerCam.Timelapse.Attempt
import Mathlib.Data.List.Induction

/-!
# Timelapse.Schedule

The minutes that are captured. `nextCaptureTime` is the start of the minute after the last one
captured, or after that of the reading `t₀` of `initializeTime`; a reading is due when its minute is
later.

* `Judged`, `run_inv`        : every reading of every run is judged so.
* `minutes_increase`         : no minute is captured twice, whatever the clock does.
* `due_iff_first`            : on a clock that never steps back, which readings are due.
* `readings_run`             : a run of `n` passes makes `n` readings.
* `captures_once_per_minute` : the four together, over runs.
-/

namespace TimerCam
namespace Timelapse

open History

/-- The readings of `checkScheduledCapture`, and whether each led to a capture. -/
def readings (tr : List Ev) : List (Int × Bool) :=
  tr.filterMap fun
    | .check _ t due => some (t, due)
    | _ => none

def syncs (tr : List Ev) : List Int :=
  tr.filterMap fun
    | .sync t => some t
    | _ => none

def waits (tr : List Ev) : List Int :=
  tr.filterMap fun
    | .waiting _ t => some t
    | _ => none

/-- The readings, and between them the calls of `captureAndUploadImage` (`none`). -/
def captureCalls (tr : List Ev) : List (Option (Int × Bool)) :=
  tr.filterMap fun
    | .check _ t due => some (some (t, due))
    | .capture _ => some none
    | _ => none

/-- A reading, and the call it leads to. -/
def withCall (c : Int × Bool) : List (Option (Int × Bool)) :=
  if c.2 then [some c, none] else [some c]

def captured (cs : List (Int × Bool)) : List Int := (cs.filter (·.2)).map (·.1 / 60)

/-- The minute that was captured last, or that of `t₀`. -/
def lastMinute (t₀ : Int) (cs : List (Int × Bool)) : Int := (captured cs).getLastD (t₀ / 60)

/-- The reading `c` is due when its minute is later than the last one captured. -/
def Judged (t₀ : Int) (pre : List (Int × Bool)) (c : Int × Bool) : Prop :=
  c.2 = true ↔ lastMinute t₀ pre < c.1 / 60

theorem lastMinute_concat_due (t₀ : Int) (cs : List (Int × Bool)) (t : Int) :
    lastMinute t₀ (cs ++ [(t, true)]) = t / 60 := by
  simp [lastMinute, captured]

theorem lastMinute_concat (t₀ : Int) (cs : List (Int × Bool)) (t : Int) :
    lastMinute t₀ (cs ++ [(t, false)]) = lastMinute t₀ cs := by
  simp [lastMinute, captured]

/-! ## Readings judged one by one -/

section Readings

variable {t₀ : Int} {cs : List (Int × Bool)}

theorem le_lastMinute (h : Each (Judged t₀) cs) :
    t₀ / 60 ≤ lastMinute t₀ cs ∧ ∀ c ∈ cs, c.1 / 60 ≤ lastMinute t₀ cs := by
  induction cs using List.reverseRecOn with
  | nil => exact ⟨Int.le_refl _, by simp⟩
  | append_singleton cs c ih =>
    rw [each_concat] at h
    obtain ⟨h₁, h₂⟩ := ih h.1
    have hc := h.2
    obtain ⟨t, due⟩ := c
    cases due with
    | true =>
      have hlt := hc.mp rfl
      rw [lastMinute_concat_due]
      refine ⟨by omega, fun c hmem => ?_⟩
      rcases List.mem_append.mp hmem with hmem | hmem
      · have := h₂ c hmem
        omega
      · obtain rfl := List.mem_singleton.mp hmem
        exact Int.le_refl _
    | false =>
      have hle : ¬ lastMinute t₀ cs < t / 60 := fun hlt => by cases hc.mpr hlt
      rw [lastMinute_concat]
      refine ⟨h₁, fun c hmem => ?_⟩
      rcases List.mem_append.mp hmem with hmem | hmem
      · exact h₂ c hmem
      · obtain rfl := List.mem_singleton.mp hmem
        exact Int.not_lt.mp hle

theorem lastMinute_mem : lastMinute t₀ cs = t₀ / 60 ∨ ∃ c ∈ cs, c.1 / 60 = lastMinute t₀ cs := by
  cases h : captured cs with
  | nil => exact .inl (by rw [lastMinute, h]; rfl)
  | cons m ms =>
    have hmem : lastMinute t₀ cs ∈ captured cs := by
      rw [lastMinute, h, List.getLastD_cons]
      exact List.getLastD_mem_cons
    obtain ⟨c, hc, he⟩ := List.mem_map.mp hmem
    exact .inr ⟨c, (List.mem_filter.mp hc).1, he⟩

theorem minutes_increase (h : Each (Judged t₀) cs) :
    (t₀ / 60 :: captured cs).Pairwise (· < ·) := by
  induction cs using List.reverseRecOn with
  | nil => simp [captured]
  | append_singleton cs c ih =>
    rw [each_concat] at h
    obtain ⟨t, due⟩ := c
    cases due with
    | false => simpa [captured] using ih h.1
    | true =>
      have hlt := h.2.mp rfl
      obtain ⟨h₁, h₂⟩ := le_lastMinute h.1
      have he : captured (cs ++ [(t, true)]) = captured cs ++ [t / 60] := by simp [captured]
      rw [he, ← List.cons_append, List.pairwise_append]
      refine ⟨ih h.1, List.pairwise_singleton _ _, fun m hm m' hm' => ?_⟩
      obtain rfl := List.mem_singleton.mp hm'
      rcases List.mem_cons.mp hm with rfl | hm
      · omega
      · obtain ⟨c, hc, rfl⟩ := List.mem_map.mp hm
        have := h₂ c (List.mem_filter.mp hc).1
        omega

/-- When the readings never step back, the due ones are the first in minutes after that of `t₀`. -/
theorem due_iff_first (h : Each (Judged t₀) cs) (hmono : (cs.map (·.1)).Pairwise (· ≤ ·)) :
    Each (fun pre c => c.2 = true ↔ (∀ p ∈ pre, p.1 / 60 ≠ c.1 / 60) ∧ t₀ / 60 < c.1 / 60) cs := by
  intro pre c post he
  subst he
  rw [each_append, each_cons] at h
  obtain ⟨hpre, hc, -⟩ := h
  rw [List.append_nil] at hc
  obtain ⟨h₁, h₂⟩ := le_lastMinute hpre
  refine Iff.trans hc ⟨?_, ?_⟩
  · intro hlt
    refine ⟨fun p hp => ?_, by omega⟩
    have := h₂ p hp
    omega
  · rintro ⟨hne, hlt⟩
    rcases @lastMinute_mem t₀ pre with hl | ⟨p, hp, hl⟩
    · omega
    · have hle : p.1 ≤ c.1 := by
        rw [List.map_append, List.pairwise_append] at hmono
        exact hmono.2.2 _ (List.mem_map_of_mem hp) _ (List.mem_map_of_mem (List.mem_cons_self ..))
      have hdiv : p.1 / 60 ≤ c.1 / 60 := Int.ediv_le_ediv (by omega) hle
      have := hne p hp
      omega

theorem read_minute_captured
    (h : Each (fun pre c => c.2 = true ↔ (∀ p ∈ pre, p.1 / 60 ≠ c.1 / 60) ∧ t₀ / 60 < c.1 / 60) cs)
    {m : Int} (hm : t₀ / 60 < m) (hread : ∃ c ∈ cs, c.1 / 60 = m) : m ∈ captured cs := by
  induction cs using List.reverseRecOn with
  | nil => obtain ⟨c, hc, -⟩ := hread; cases hc
  | append_singleton cs c ih =>
    rw [each_concat] at h
    have he : captured (cs ++ [c]) = captured cs ++ captured [c] := by simp [captured]
    rw [he, List.mem_append]
    by_cases hold : ∃ p ∈ cs, p.1 / 60 = m
    · exact .inl (ih h.1 hold)
    · right
      obtain ⟨p, hp, hpm⟩ := hread
      rcases List.mem_append.mp hp with hp | hp
      · exact absurd ⟨p, hp, hpm⟩ hold
      · obtain rfl := List.mem_singleton.mp hp
        have hdue : p.2 = true := h.2.mpr ⟨fun q hq hqm => hold ⟨q, hq, by omega⟩, by omega⟩
        simp [captured, hdue, hpm]

end Readings

/-! ## Over runs -/

/-- Each time the waiting code is reached, the schedule is at the start of a minute after the reading,
and a `delay` follows. -/
def Sleeps (tr : List Ev) : Prop :=
  ∀ pre next t post, tr = pre ++ .waiting next t :: post →
    60 ∣ next ∧ t < next ∧ ∃ k ms rest, post = .delay k ms :: rest ∧ 0 < ms

theorem Sleeps.append {a b : List Ev} (ha : Sleeps a) (hb : Sleeps b) : Sleeps (a ++ b) := by
  intro pre next t post he
  rcases List.append_eq_append_iff.mp he with ⟨mid, rfl, hmid⟩ | ⟨mid, rfl, hmid⟩
  · exact hb mid next t post hmid
  · cases mid with
    | nil =>
      exact hb [] next t post (by simpa using hmid.symm)
    | cons e mid =>
      rw [List.cons_append, List.cons.injEq] at hmid
      obtain ⟨rfl, rfl⟩ := hmid
      obtain ⟨h₁, h₂, k, ms, rest, rfl, h₃⟩ := ha pre next t mid rfl
      exact ⟨h₁, h₂, k, ms, rest ++ b, rfl, h₃⟩

theorem sleeps_of_no_waiting {tr : List Ev} (h : ∀ next t, .waiting next t ∉ tr) : Sleeps tr := by
  rintro pre next t post rfl
  exact absurd (List.mem_append_right pre (List.mem_cons_self ..)) (h next t)

/-- The schedule is set by the readings so far. -/
structure Inv (t₀ : Int) (w : World) : Prop where
  syncs : syncs w.trace = [t₀]
  next : w.nextCaptureTime = (lastMinute t₀ (readings w.trace) + 1) * 60
  judged : Each (Judged t₀) (readings w.trace)
  calls : captureCalls w.trace = (readings w.trace).flatMap withCall
  waits : waits w.trace = (readings w.trace).map (·.1)
  sleeps : Sleeps w.trace

theorem readings_append (a b : List Ev) : readings (a ++ b) = readings a ++ readings b :=
  List.filterMap_append

theorem syncs_append (a b : List Ev) : syncs (a ++ b) = syncs a ++ syncs b :=
  List.filterMap_append

theorem waits_append (a b : List Ev) : waits (a ++ b) = waits a ++ waits b :=
  List.filterMap_append

theorem captureCalls_append (a b : List Ev) :
    captureCalls (a ++ b) = captureCalls a ++ captureCalls b :=
  List.filterMap_append

theorem readings_offSchedule {w w' : World} (h : Extends Ev.offSchedule w w') :
    readings w'.trace = readings w.trace := by
  refine h.filterMap_eq fun e he => ?_
  cases e <;> first | rfl | exact he.elim

theorem readings_aside {w w' : World} (h : Extends Ev.aside w w') :
    readings w'.trace = readings w.trace := by
  refine h.filterMap_eq fun e he => ?_
  cases e <;> first | rfl | exact he.elim

/-- Nothing of the schedule is in `new`. -/
structure Off (new : List Ev) : Prop where
  readings : readings new = []
  syncs : syncs new = []
  calls : captureCalls new = []
  waits : waits new = []
  sleeps : Sleeps new

theorem off_of_offSchedule {new : List Ev} (h : ∀ e ∈ new, e.offSchedule) : Off new := by
  refine ⟨filterMap_eq_nil ?_ h, filterMap_eq_nil ?_ h, filterMap_eq_nil ?_ h,
    filterMap_eq_nil ?_ h, sleeps_of_no_waiting fun next t hmem => h _ hmem⟩
  · intro e he
    cases e <;> first | rfl | exact he.elim
  · intro e he
    cases e <;> first | rfl | exact he.elim
  · intro e he
    cases e <;> first | rfl | exact he.elim
  · intro e he
    cases e <;> first | rfl | exact he.elim

theorem Inv.extends {t₀ : Int} {w w' : World} (h : Inv t₀ w)
    (he : Extends Ev.offSchedule w w') : Inv t₀ w' := by
  obtain ⟨⟨new, htr, hnew⟩, -, hnext⟩ := he
  have hoff := off_of_offSchedule hnew
  have hreadings : readings w'.trace = readings w.trace := by
    rw [htr, readings_append, hoff.readings, List.append_nil]
  refine ⟨?_, ?_, ?_, ?_, ?_, ?_⟩
  · rw [htr, syncs_append, hoff.syncs, List.append_nil, h.syncs]
  · rw [hreadings, hnext, h.next]
  · rw [hreadings]
    exact h.judged
  · rw [hreadings, htr, captureCalls_append, hoff.calls, List.append_nil, h.calls]
  · rw [hreadings, htr, waits_append, hoff.waits, List.append_nil, h.waits]
  · rw [htr]
    exact h.sleeps.append hoff.sleeps

theorem nextMinute_eq {t : Int} (h : 0 ≤ t) : nextMinute t = (t / 60 + 1) * 60 := by
  rw [nextMinute, Int.tdiv_eq_ediv_of_nonneg h]

theorem waitAfter_trace {t : Int} {w : World} (h : t < w.nextCaptureTime) :
    (waitAfter t w).nextCaptureTime = w.nextCaptureTime ∧ ∃ ms, 0 < ms ∧ (waitAfter t w).trace =
      w.trace ++ [.waiting w.nextCaptureTime t, .delay w.reads.tick ms] := by
  rw [waitAfter_delay h]
  exact ⟨rfl, _, waitMs_pos _, List.append_assoc _ _ _⟩

/-- The call that a reading at instant `k` leads to. -/
def callAfter (k : Nat) (due : Bool) : List Ev := if due then [.capture (k + 1)] else []

/-- A pass makes one reading, and calls for a capture if it is due; what else comes before the
waiting code is off the schedule. -/
theorem checkScheduledCapture_spec (E : Env) (w : World) :
    ∃ (w' : World) (due : Bool) (new : List Ev),
      checkScheduledCapture E w = waitAfter (E.time w.reads.tick) w' ∧
      w'.trace = w.trace ++ (.check w.reads.tick (E.time w.reads.tick) due ::
        (callAfter w.reads.tick due ++ new)) ∧
      (∀ e ∈ new, e.offSchedule) ∧ (due = true ↔ w.nextCaptureTime ≤ E.time w.reads.tick) ∧
      w'.nextCaptureTime =
        (if due then nextMinute (E.time w.reads.tick) else w.nextCaptureTime) ∧
      w.reads.tick < w'.reads.tick := by
  rcases checkScheduledCapture_cases E w with ⟨hdue, he⟩ | ⟨hdue, he⟩
  · exact ⟨_, false, [], he, rfl, by simp, ⟨fun h => (by cases h), fun h => absurd h hdue⟩, rfl,
      Nat.lt_succ_self _⟩
  · obtain ⟨⟨new₁, htr₁, hnew₁⟩, htick₁, -⟩ := capture_extends E
      (w.nextTick.emit (.check w.reads.tick (E.time w.reads.tick) true))
    obtain ⟨⟨new₂, htr₂, hnew₂⟩, htick₂, hnext₂⟩ := afterAttempt_extends E (E.time w.reads.tick)
      (w.nextTick.emit (.check w.reads.tick (E.time w.reads.tick) true))
    refine ⟨_, true, new₁ ++ new₂, he, ?_, ?_, ⟨fun _ => hdue, fun _ => rfl⟩, hnext₂,
      Nat.lt_of_succ_le (Nat.le_trans htick₁ htick₂)⟩
    · rw [htr₂, htr₁]
      simp [World.emit, World.nextTick, callAfter]
    · intro e he
      rcases List.mem_append.mp he with he | he
      · exact hnew₁ e he
      · exact (hnew₂ e he).offSchedule

theorem sleeps_wait {next t : Int} {k ms : Nat} (h : 60 ∣ next) (ht : t < next) (hms : 0 < ms) :
    Sleeps [.waiting next t, .delay k ms] := by
  intro pre next' t' post he
  cases pre with
  | nil =>
    rw [List.nil_append, List.cons.injEq, Ev.waiting.injEq] at he
    obtain ⟨⟨rfl, rfl⟩, rfl⟩ := he
    exact ⟨h, ht, k, ms, [], rfl, hms⟩
  | cons e pre => cases pre <;> simp at he

/-- What a pass with the reading `c` adds to the trace. -/
structure Pass (new : List Ev) (c : Int × Bool) : Prop where
  readings : readings new = [c]
  syncs : syncs new = []
  calls : captureCalls new = withCall c
  waits : waits new = [c.1]
  sleeps : Sleeps new

theorem sleeps_marks (k : Nat) (t : Int) (due : Bool) :
    Sleeps (.check k t due :: callAfter k due) := by
  refine sleeps_of_no_waiting ?_
  unfold callAfter
  cases due with
  | true => simp
  | false => simp

theorem pass_of_offSchedule (k k' : Nat) {ms : Nat} {t next : Int} (due : Bool) {new : List Ev}
    (hnew : ∀ e ∈ new, e.offSchedule) (h60 : 60 ∣ next) (hlt : t < next) (hms : 0 < ms) :
    Pass ((.check k t due :: callAfter k due) ++ (new ++ [.waiting next t, .delay k' ms]))
      (t, due) := by
  have hoff := off_of_offSchedule hnew
  refine ⟨?_, ?_, ?_, ?_, ?_⟩
  · rw [readings_append, readings_append, hoff.readings]
    cases due <;> rfl
  · rw [syncs_append, syncs_append, hoff.syncs]
    cases due <;> rfl
  · rw [captureCalls_append, captureCalls_append, hoff.calls]
    cases due <;> rfl
  · rw [waits_append, waits_append, hoff.waits]
    cases due <;> rfl
  · exact (sleeps_marks k t due).append (hoff.sleeps.append (sleeps_wait h60 hlt hms))

theorem Inv.pass {t₀ : Int} {w w' : World} {new : List Ev} {c : Int × Bool} (h : Inv t₀ w)
    (htr : w'.trace = w.trace ++ new) (hpass : Pass new c)
    (hjudged : Judged t₀ (readings w.trace) c)
    (hnext : w'.nextCaptureTime = (lastMinute t₀ (readings w.trace ++ [c]) + 1) * 60) :
    Inv t₀ w' := by
  have hreadings : readings w'.trace = readings w.trace ++ [c] := by
    rw [htr, readings_append, hpass.readings]
  refine ⟨?_, ?_, ?_, ?_, ?_, ?_⟩
  · rw [htr, syncs_append, hpass.syncs, List.append_nil, h.syncs]
  · rw [hreadings, hnext]
  · rw [hreadings, each_concat]
    exact ⟨h.judged, hjudged⟩
  · rw [hreadings, htr, captureCalls_append, hpass.calls, h.calls, List.flatMap_append,
      List.flatMap_singleton]
  · rw [hreadings, htr, waits_append, hpass.waits, h.waits, List.map_append]
    rfl
  · rw [htr]
    exact h.sleeps.append hpass.sleeps

/-- A pass keeps the invariant: the schedule moves on when the reading is due, and is after the
reading in either case. -/
theorem checkScheduledCapture_inv {t₀ : Int} (E : Env) {w : World} (h : Inv t₀ w) :
    Inv t₀ (checkScheduledCapture E w) := by
  obtain ⟨w', due, new, he, htr, hnew, hdue, hnext, -⟩ := checkScheduledCapture_spec E w
  rw [he]
  have ht : (0 : Int) ≤ E.time w.reads.tick := Int.natCast_nonneg _
  generalize hk : w.reads.tick = k at *
  generalize (E.time k : Int) = t at *
  have hjudged : Judged t₀ (readings w.trace) (t, due) := by
    refine Iff.trans hdue ?_
    rw [h.next]
    omega
  have hnext' : w'.nextCaptureTime = (lastMinute t₀ (readings w.trace ++ [(t, due)]) + 1) * 60 := by
    cases due with
    | true => rw [hnext, if_pos rfl, nextMinute_eq ht, lastMinute_concat_due]
    | false => rw [hnext, if_neg (by simp), lastMinute_concat, h.next]
  have hlt : t < w'.nextCaptureTime := by
    cases due with
    | true =>
      rw [hnext, if_pos rfl, nextMinute_eq ht]
      omega
    | false =>
      rw [hnext, if_neg (by simp)]
      exact Int.not_le.mp fun hle => by cases hdue.mpr hle
  have h60 : 60 ∣ w'.nextCaptureTime := by
    rw [hnext']
    exact Int.dvd_mul_left _ _
  obtain ⟨hn, ms, hms, hwait⟩ := waitAfter_trace hlt
  refine h.pass ?_ (pass_of_offSchedule k w'.reads.tick due hnew h60 hlt hms) hjudged
    (hn.trans hnext')
  rw [hwait, htr]
  simp

theorem run_inv {t₀ : Int} (E : Env) {w : World} (h : Inv t₀ w) (n : Nat) :
    Inv t₀ (run E n w) := by
  induction n with
  | zero => exact h
  | succ n ih =>
    rw [run_succ]
    exact checkScheduledCapture_inv E
      (ih.extends (maintainWiFi_extends trivial (fun _ _ => trivial) E _))

/-- The instant at which pass number `i` of the run from `w` reads the clock. -/
def instant (E : Env) (w : World) (i : Nat) : Nat := (maintainWiFi E (run E i w)).reads.tick

theorem readings_loop (E : Env) (w : World) : readings (loop E w).trace = readings w.trace ++
    [((E.time (maintainWiFi E w).reads.tick : Int), (attempt? E w).isSome)] := by
  rw [← readings_aside (maintainWiFi_aside E w)]
  rcases loop_cases E w with ⟨-, hatt, he⟩ | ⟨-, hatt, he⟩
  · have hafter := readings_offSchedule ((afterAttempt_extends E
      (E.time (maintainWiFi E w).reads.tick) ((maintainWiFi E w).nextTick.emit
        (.check (maintainWiFi E w).reads.tick (E.time (maintainWiFi E w).reads.tick) true))).imp
      fun _ he => he.offSchedule)
    rw [he, hatt, readings_aside (waitAfter_aside _ _), hafter]
    refine (readings_offSchedule (capture_extends E _)).trans ?_
    exact (readings_append _ _).trans ((List.append_nil _).trans (readings_append _ _))
  · rw [he, hatt, readings_aside (waitAfter_aside _ _)]
    exact readings_append _ _

/-- Every pass makes one reading. -/
theorem readings_run (E : Env) (n : Nat) (w : World) : readings (run E n w).trace =
    readings w.trace ++ (List.range n).map fun i =>
      ((E.time (instant E w i) : Int), (attempt? E (run E i w)).isSome) := by
  induction n with
  | zero => exact (List.append_nil _).symm
  | succ n ih =>
    rw [run_succ, readings_loop, ih, List.range_succ, List.map_append, List.append_assoc]
    rfl

theorem lt_loop_tick (E : Env) (w : World) :
    (maintainWiFi E w).reads.tick < (loop E w).reads.tick := by
  obtain ⟨w', due, new, he, -, -, -, -, htick⟩ := checkScheduledCapture_spec E (maintainWiFi E w)
  rw [loop, he]
  exact Nat.lt_of_lt_of_le htick (waitAfter_aside _ w').tick

theorem instant_lt (E : Env) (w : World) (i : Nat) : instant E w i < instant E w (i + 1) := by
  rw [instant, instant, run_succ]
  exact Nat.lt_of_lt_of_le (lt_loop_tick E _) (maintainWiFi_aside E _).tick

theorem setup_inv {E : Env} {fuel : Nat} {w : World} (h : setup E fuel {} = some w) :
    ∃ k₀ < w.reads.tick, readings w.trace = [] ∧ Inv (E.time k₀) w := by
  obtain ⟨reads, w₁, hwait, hrest⟩ := setup_cases h
  obtain ⟨⟨new, htr, hnew⟩, -, -⟩ := hwait.imp fun _ he => he.offSchedule
  have hoff := off_of_offSchedule hnew
  have ht : (0 : Int) ≤ E.time w₁.reads.tick := Int.natCast_nonneg _
  have htr₁ : w₁.trace = new := htr
  let w₂ : World := { w₁.nextTick.emit (.sync (E.time w₁.reads.tick)) with
    nextCaptureTime := nextMinute (E.time w₁.reads.tick) }
  have htr₂ : w₂.trace = new ++ [.sync (E.time w₁.reads.tick)] := by
    rw [← htr₁]
    rfl
  have hreadings : readings w₂.trace = [] := by
    rw [htr₂, readings_append, hoff.readings]
    rfl
  have hinv : Inv (E.time w₁.reads.tick) w₂ := by
    refine ⟨?_, ?_, ?_, ?_, ?_, ?_⟩
    · rw [htr₂, syncs_append, hoff.syncs]
      rfl
    · rw [hreadings]
      exact nextMinute_eq ht
    · rw [hreadings]
      exact each_nil _
    · rw [hreadings, htr₂, captureCalls_append, hoff.calls]
      rfl
    · rw [hreadings, htr₂, waits_append, hoff.waits]
      rfl
    · rw [htr₂]
      exact hoff.sleeps.append (sleeps_of_no_waiting (by simp))
  have hset : Extends Ev.offSchedule w₂ w := hrest.imp fun _ he => he.offSchedule
  exact ⟨_, hset.tick, (readings_offSchedule hset).trans hreadings, hinv.extends hset⟩

/-- In every run of `n` passes the clock is read `n` times, at instants that increase from that of
`t₀` on. The captured minutes increase from the minute of `t₀` on, whatever the clock does; if it
never steps back, a reading leads to a capture exactly when it is the first in a minute later than
that of `t₀`, so that every such minute in which the clock is read is captured; and after every
reading the waiting code is reached, with the schedule at a multiple of 60 after the reading, and a
`delay` follows. The readings that lead to a capture are those after which `captureAndUploadImage` is
called. -/
theorem captures_once_per_minute {E : Env} {fuel : Nat} {w : World}
    (h : setup E fuel {} = some w) (n : Nat) :
    ∃ (k₀ : Nat) (t₀ : Int), t₀ = E.time k₀ ∧ syncs (run E n w).trace = [t₀] ∧
      k₀ < instant E w 0 ∧ (∀ i, instant E w i < instant E w (i + 1)) ∧
      (readings (run E n w).trace).map (·.1) =
        (List.range n).map (fun i => (E.time (instant E w i) : Int)) ∧
      captureCalls (run E n w).trace = (readings (run E n w).trace).flatMap withCall ∧
      (t₀ / 60 :: captured (readings (run E n w).trace)).Pairwise (· < ·) ∧
      (((readings (run E n w).trace).map (·.1)).Pairwise (· ≤ ·) →
        Each (fun pre c => c.2 = true ↔
          (∀ p ∈ pre, p.1 / 60 ≠ c.1 / 60) ∧ t₀ / 60 < c.1 / 60) (readings (run E n w).trace) ∧
        ∀ m, t₀ / 60 < m → (∃ c ∈ readings (run E n w).trace, c.1 / 60 = m) →
          m ∈ captured (readings (run E n w).trace)) ∧
      waits (run E n w).trace = (readings (run E n w).trace).map (·.1) ∧
      Sleeps (run E n w).trace := by
  obtain ⟨k₀, htick, hread, hsetup⟩ := setup_inv h
  have hrun := run_inv E hsetup n
  have hreadings : (readings (run E n w).trace).map (·.1) =
      (List.range n).map fun i => (E.time (instant E w i) : Int) := by
    rw [readings_run, hread, List.nil_append, List.map_map]
    rfl
  have hfirst : k₀ < instant E w 0 := Nat.lt_of_lt_of_le htick (maintainWiFi_aside E w).tick
  refine ⟨k₀, _, rfl, hrun.syncs, hfirst, instant_lt E w, hreadings, hrun.calls,
    minutes_increase hrun.judged, fun hmono => ?_, hrun.waits, hrun.sleeps⟩
  have hdue := due_iff_first hrun.judged hmono
  exact ⟨hdue, fun m hm hpass => read_minute_captured hdue hm hpass⟩

/-- Two passes, with a capture each: of the minutes 20:14 and 20:27. -/
theorem captures_once_per_minute_twice :
    captured (readings (run minuteEnv 2 minuteWorld).trace) = [28440724, 28440737] ∧
    ∃ (k₀ : Nat) (t₀ : Int), t₀ = minuteEnv.time k₀ ∧
      syncs (run minuteEnv 2 minuteWorld).trace = [t₀] ∧ k₀ < instant minuteEnv minuteWorld 0 ∧
      (∀ i, instant minuteEnv minuteWorld i < instant minuteEnv minuteWorld (i + 1)) ∧
      (readings (run minuteEnv 2 minuteWorld).trace).map (·.1) =
        (List.range 2).map (fun i => (minuteEnv.time (instant minuteEnv minuteWorld i) : Int)) ∧
      captureCalls (run minuteEnv 2 minuteWorld).trace =
        (readings (run minuteEnv 2 minuteWorld).trace).flatMap withCall ∧
      (t₀ / 60 :: captured (readings (run minuteEnv 2 minuteWorld).trace)).Pairwise (· < ·) ∧
      (((readings (run minuteEnv 2 minuteWorld).trace).map (·.1)).Pairwise (· ≤ ·) →
        Each (fun pre c => c.2 = true ↔
          (∀ p ∈ pre, p.1 / 60 ≠ c.1 / 60) ∧ t₀ / 60 < c.1 / 60)
          (readings (run minuteEnv 2 minuteWorld).trace) ∧
        ∀ m, t₀ / 60 < m → (∃ c ∈ readings (run minuteEnv 2 minuteWorld).trace, c.1 / 60 = m) →
          m ∈ captured (readings (run minuteEnv 2 minuteWorld).trace)) ∧
      waits (run minuteEnv 2 minuteWorld).trace =
        (readings (run minuteEnv 2 minuteWorld).trace).map (·.1) ∧
      Sleeps (run minuteEnv 2 minuteWorld).trace :=
  ⟨by decide +kernel, captures_once_per_minute setup_minute 2⟩

end Timelapse
end TimerCam

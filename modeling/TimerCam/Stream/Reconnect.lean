import TimerCam.Lib.History
import TimerCam.Stream.Sketch
import Mathlib.Data.List.Chain
import Mathlib.Data.List.Induction

/-!
# Stream.Reconnect

When `maintainWiFi` reconnects. Its deadline `nextTry = millis() + 5000` lives in the 32-bit counter
and is tested by `millis() < nextTry`; the questions are about true time.

* `Judged`   : what a call does, given the calls before it. `run_judged` says that every call of
  every run is judged so.
* `reconnects_spaced_iff`, `reconnect_when_due_iff` : when the spacing of 5 seconds holds in true
  time, and when no call that is due is held back. Both fail around a wrap of the counter.
-/

namespace TimerCam
namespace Stream

open Uptime History

/-- The calls of `maintainWiFi` that saw Wi-Fi down. -/
def calls (tr : List Ev) : List Call :=
  tr.filterMap fun
    | .maintain c => c
    | _ => none

/-- The calls of `WiFi.reconnect()`: true uptime at the call, and at the `millis()` of the deadline
stored after it. -/
def reconnects (cs : List Call) : List (Nat × Nat) :=
  cs.filterMap fun c => c.stored.map fun b => (c.next, b)

def lastReconnect (cs : List Call) : Option (Nat × Nat) := (reconnects cs).getLast?

theorem lastReconnect_concat_some {cs : List Call} {t r b : Nat} :
    lastReconnect (cs ++ [⟨t, r, some b⟩]) = some (r, b) := by
  simp [lastReconnect, reconnects]

theorem lastReconnect_concat_none {cs : List Call} {t r : Nat} :
    lastReconnect (cs ++ [⟨t, r, none⟩]) = lastReconnect cs := by
  simp [lastReconnect, reconnects]

/-! ## One call -/

/-- The call `c` after the calls `pre`: it reconnects unless the counter shows less than the stored
deadline, and time has not gone back. -/
structure Judged (pre : List Call) (c : Call) : Prop where
  passes : c.stored.isSome ↔
    ∀ p, lastReconnect pre = some p → (p.2 + 5000) % period ≤ c.time % period
  after : ∀ p, lastReconnect pre = some p → p.1 ≤ p.2 ∧ p.2 ≤ c.time
  next : c.time ≤ c.next

/-- `nextTry` is the deadline stored by the last reconnect, all instants of which have passed. -/
structure Inv (E : Env) (w : World) : Prop where
  nextTry : w.nextTry = (lastReconnect (calls w.trace)).elim 0 fun p => millis p.2 + 5000
  past : ∀ p, lastReconnect (calls w.trace) = some p →
    p.1 ≤ p.2 ∧ ∀ k, w.reads.tick ≤ k → p.2 ≤ E.uptime k
  judged : Each Judged (calls w.trace)

theorem Inv.congr {E : Env} {w w' : World} (h : Inv E w) (hn : w'.nextTry = w.nextTry)
    (hc : calls w'.trace = calls w.trace) (ht : w.reads.tick ≤ w'.reads.tick) : Inv E w' where
  nextTry := by rw [hn, hc, h.nextTry]
  past p hp := by
    rw [hc] at hp
    obtain ⟨h₁, h₂⟩ := h.past p hp
    exact ⟨h₁, fun k hk => h₂ k (by omega)⟩
  judged := by rw [hc]; exact h.judged

theorem Inv.guard {E : Env} {w : World} (h : Inv E w) (t : Nat) :
    ¬ millis t < w.nextTry ↔
      ∀ p, lastReconnect (calls w.trace) = some p → (p.2 + 5000) % period ≤ t % period := by
  rw [h.nextTry]
  cases hl : lastReconnect (calls w.trace) with
  | none => simp
  | some p =>
    simp only [Option.elim_some, deadline_lt_iff, Option.some.injEq, forall_eq', Nat.not_lt]
    rfl

theorem handleClient_frame (E : Env) (w : World) :
    (handleClient E w).nextTry = w.nextTry ∧ calls (handleClient E w).trace = calls w.trace ∧
      (handleClient E w).reads = w.reads := by
  rcases handleClient_cases E w with h | ⟨r, -, -, -, h⟩
  · rw [h]
    exact ⟨rfl, by simp [calls], rfl⟩
  · rw [h]
    exact ⟨rfl, by simp [calls], rfl⟩

theorem calls_concat (tr : List Ev) (c : Call) :
    calls (tr ++ [.maintain (some c)]) = calls tr ++ [c] := by
  simp [calls]

theorem maintainWiFi_inv {E : Env} (hm : Monotone E.uptime) {w : World} (h : Inv E w) :
    Inv E (maintainWiFi E w) := by
  have hnext : E.uptime w.reads.tick ≤ E.uptime (w.reads.tick + 1) := hm (by omega)
  have hafter : ∀ p, lastReconnect (calls w.trace) = some p →
      p.1 ≤ p.2 ∧ p.2 ≤ E.uptime w.reads.tick :=
    fun p hp => ⟨(h.past p hp).1, (h.past p hp).2 _ (Nat.le_refl _)⟩
  have hguard := h.guard (E.uptime w.reads.tick)
  cases hw : E.wifi w.reads.wifi with
  | true =>
    rw [maintainWiFi_up hw]
    exact h.congr rfl (by simp [calls]) (Nat.le_refl _)
  | false =>
    by_cases ht : millis (E.uptime w.reads.tick) < w.nextTry
    · -- held back: the deadline stays
      rw [maintainWiFi_held hw ht]
      refine ⟨?_, ?_, ?_⟩
      · simp only [calls_concat, lastReconnect_concat_none]
        exact h.nextTry
      · intro p hp
        simp only [calls_concat, lastReconnect_concat_none] at hp
        obtain ⟨h₁, h₂⟩ := h.past p hp
        refine ⟨h₁, fun k hk => h₂ k ?_⟩
        simp only [Reads.nextTick_tick, Reads.nextWifi_tick] at hk
        omega
      · simp only [calls_concat, each_concat]
        refine ⟨h.judged, ⟨?_, hafter, hnext⟩⟩
        rw [← hguard]
        simp [ht]
    · -- let through: a new deadline, stored after the call of `WiFi.reconnect()`
      rw [maintainWiFi_reconnects hw ht]
      refine ⟨?_, ?_, ?_⟩
      · simp only [calls_concat, lastReconnect_concat_some, Option.elim_some]
      · intro p hp
        simp only [calls_concat, lastReconnect_concat_some, Option.some.injEq] at hp
        subst hp
        refine ⟨hm (by omega), fun k hk => hm ?_⟩
        simp only [Reads.nextTick_tick, Reads.nextWifi_tick] at hk
        omega
      · simp only [calls_concat, each_concat]
        refine ⟨h.judged, ⟨?_, hafter, hnext⟩⟩
        rw [← hguard]
        simp [ht]

theorem loop_inv {E : Env} (hm : Monotone E.uptime) {w : World} (h : Inv E w) :
    Inv E (loop E w) := by
  have hw : Inv E w.nextWifi := h.congr rfl rfl (Nat.le_refl _)
  simp only [loop]
  split
  · obtain ⟨h₁, h₂, h₃⟩ := handleClient_frame E w.nextWifi
    exact maintainWiFi_inv hm (hw.congr h₁ h₂ (by rw [h₃]))
  · exact maintainWiFi_inv hm hw

theorem run_inv {E : Env} (hm : Monotone E.uptime) {w : World} (h : Inv E w) (n : Nat) :
    Inv E (run E n w) := by
  induction n with
  | zero => exact h
  | succ n ih => rw [run_succ]; exact loop_inv hm ih

theorem setup_inv {E : Env} {fuel : Nat} {w : World} (h : setup E fuel {} = some w) : Inv E w := by
  have hn : w.nextTry = 0 ∧ calls w.trace = [] := by
    simp only [setup] at h
    split at h
    · cases h
    · split at h <;> cases h <;> exact ⟨rfl, rfl⟩
  obtain ⟨h₁, h₂⟩ := hn
  refine ⟨?_, ?_, ?_⟩
  · rw [h₁, h₂]; rfl
  · rw [h₂]; intro p hp; cases hp
  · rw [h₂]; exact each_nil _

theorem run_judged {E : Env} (hm : Monotone E.uptime) {fuel : Nat} {w : World}
    (h : setup E fuel {} = some w) (n : Nat) : Each Judged (calls (run E n w).trace) :=
  (run_inv hm (setup_inv h) n).judged

/-! ## Spacing -/

/-- Consecutive calls of `WiFi.reconnect()` are at least 5000 ms of true time apart. -/
def Spaced (cs : List Call) : Prop :=
  (reconnects cs).IsChain fun p q => p.1 + 5000 ≤ q.1

theorem spaced_iff (cs : List Call) : Spaced cs ↔
    Each (fun pre c => ∀ p b, lastReconnect pre = some p → c.stored = some b →
      p.1 + 5000 ≤ c.next) cs := by
  induction cs using List.reverseRecOn with
  | nil => simp [Spaced, reconnects]
  | append_singleton cs c ih =>
    rw [each_concat, ← ih]
    obtain ⟨t, r, s⟩ := c
    cases s with
    | none => simp [Spaced, reconnects]
    | some b =>
      have hr : reconnects (cs ++ [⟨t, r, some b⟩]) = reconnects cs ++ [(r, b)] := by
        simp [reconnects]
      simp only [Spaced, hr, List.isChain_append, lastReconnect]
      simp

/-- A call that the counter is still to wrap after, before the stored deadline, comes to
`WiFi.reconnect()` no sooner than 5000 ms after the last one. -/
def ClearOfWrap (cs : List Call) : Prop :=
  Each (fun pre c => ∀ p, lastReconnect pre = some p →
    c.time / period < (p.2 + 5000) / period → p.1 + 5000 ≤ c.next) cs

/-- The spacing holds in true time exactly when no wrap of the counter comes between a call and the
deadline that should hold it back. -/
theorem reconnects_spaced_iff {E : Env} (hm : Monotone E.uptime) {fuel : Nat} {w : World}
    (h : setup E fuel {} = some w) (n : Nat) :
    Spaced (calls (run E n w).trace) ↔ ClearOfWrap (calls (run E n w).trace) := by
  have hj := run_judged hm h n
  rw [spaced_iff]
  constructor
  · intro hs pre c post heq p hp hwrap
    obtain ⟨hpass, hafter, -⟩ := hj pre c post heq
    have hlt : c.time < p.2 + 5000 := by
      refine Nat.lt_of_not_le fun hle => ?_
      have := Nat.div_le_div_right (c := period) hle
      omega
    have hget : c.stored.isSome := by
      rw [hpass]
      intro q hq
      rw [hp] at hq
      cases hq
      exact (passes_early_iff (by simp [period]) (hafter p hp).2 hlt).mpr hwrap
    obtain ⟨b, hb⟩ := Option.isSome_iff_exists.mp hget
    exact hs pre c post heq p b hp hb
  · intro hc pre c post heq p b hp hb
    obtain ⟨hpass, hafter, hnext⟩ := hj pre c post heq
    have hle := hpass.mp (by rw [hb]; rfl) p hp
    have := hafter p hp
    by_cases hlt : c.time < p.2 + 5000
    · have hwrap := (passes_early_iff (by simp [period]) this.2 hlt).mp hle
      exact hc pre c post heq p hp hwrap
    · omega

/-- Wi-Fi down throughout, at the given uptimes, without a camera. -/
def downEnv (uptime : Nat → Nat) : Env :=
  { wifi := fun _ => false, uptime := uptime, camera := fun _ => none, request := fun _ => none }

/-- Where `setup` leaves off there, when it gives up waiting after one pass. -/
def downWorld : World :=
  { reads := ⟨3, 2⟩, cam := testSingleCapture (fun _ => none) {} }

def steadyUptime (k : Nat) : Nat := 30000 * k

theorem steadyUptime_mono : Monotone (downEnv steadyUptime).uptime := by
  intro j k h
  simp only [downEnv, steadyUptime]
  omega

theorem setup_steady : setup (downEnv steadyUptime) 1 {} = some downWorld := rfl

theorem reconnects_spaced_steady :
    Spaced (calls (run (downEnv steadyUptime) 2 downWorld).trace) ↔
      ClearOfWrap (calls (run (downEnv steadyUptime) 2 downWorld).trace) :=
  reconnects_spaced_iff steadyUptime_mono setup_steady 2

/-- Two passes in the last three seconds before the counter wraps. -/
def beforeWrap (k : Nat) : Nat := if k < 2 then 30000 * k else 2 ^ 32 - 3000 + 2 * k

theorem not_spaced_beforeWrap :
    Monotone (downEnv beforeWrap).uptime ∧ setup (downEnv beforeWrap) 1 {} = some downWorld ∧
      ¬ Spaced (calls (run (downEnv beforeWrap) 2 downWorld).trace) := by
  refine ⟨?_, rfl, ?_⟩
  · intro j k h
    simp only [downEnv, beforeWrap]
    split <;> split <;> omega
  · unfold Spaced
    decide

/-! ## Attempts when due -/

/-- Every call made at least 5000 ms after the last `WiFi.reconnect()`, or with none before it,
reconnects. -/
def NoneHeldBack (cs : List Call) : Prop :=
  Each (fun pre c => (∀ p, lastReconnect pre = some p → p.1 + 5000 ≤ c.time) →
    c.stored.isSome) cs

/-- The counter does not show a due call less than the stored deadline. -/
def ShownDue (cs : List Call) : Prop :=
  Each (fun pre c => ∀ p, lastReconnect pre = some p → p.1 + 5000 ≤ c.time →
    (p.2 + 5000) % period ≤ c.time % period) cs

theorem reconnect_when_due_iff {E : Env} (hm : Monotone E.uptime) {fuel : Nat} {w : World}
    (h : setup E fuel {} = some w) (n : Nat) :
    NoneHeldBack (calls (run E n w).trace) ↔ ShownDue (calls (run E n w).trace) := by
  have hj := run_judged hm h n
  constructor
  · intro hn pre c post heq p hp hdue
    have hsome := hn pre c post heq fun q hq => by
      rw [hp] at hq
      cases hq
      exact hdue
    exact (hj pre c post heq).passes.mp hsome p hp
  · intro hs pre c post heq hdue
    rw [(hj pre c post heq).passes]
    intro p hp
    exact hs pre c post heq p hp (hdue p hp)

theorem reconnect_when_due_steady :
    NoneHeldBack (calls (run (downEnv steadyUptime) 2 downWorld).trace) ↔
      ShownDue (calls (run (downEnv steadyUptime) 2 downWorld).trace) :=
  reconnect_when_due_iff steadyUptime_mono setup_steady 2

/-- A reconnect six seconds before the counter wraps, and the next call just after it. -/
def overWrap (k : Nat) : Nat :=
  if k < 2 then 30000 * k else if k < 5 then 2 ^ 32 - 6000 + k else 2 ^ 32 + 100 + k

theorem held_back_overWrap :
    Monotone (downEnv overWrap).uptime ∧ setup (downEnv overWrap) 1 {} = some downWorld ∧
      ¬ NoneHeldBack (calls (run (downEnv overWrap) 2 downWorld).trace) := by
  refine ⟨?_, rfl, ?_⟩
  · intro j k h
    simp only [downEnv, overWrap]
    split <;> split <;> (try split) <;> (try split) <;> omega
  · intro h
    have hc : calls (run (downEnv overWrap) 2 downWorld).trace =
        [⟨2 ^ 32 - 5998, 2 ^ 32 - 5997, some (2 ^ 32 - 5996)⟩] ++
          ⟨2 ^ 32 + 105, 2 ^ 32 + 106, none⟩ :: [] := by decide
    have := h _ _ _ hc (by simp [lastReconnect, reconnects])
    cases this

end Stream
end TimerCam

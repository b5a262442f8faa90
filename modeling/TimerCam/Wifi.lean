import TimerCam.Lib.Uptime

/-!
# Wifi

`connectToWiFi`, which the two sketches share word for word but for their messages. The status of
the link and the uptime come from outside: read number `k` of `WiFi.status()`, and the true uptime
at instant number `k`.
-/

namespace TimerCam

open Uptime

/-- Reads of `WiFi.status()` and instants of the clocks used up so far. -/
structure Reads where
  wifi : Nat := 0
  tick : Nat := 0
deriving DecidableEq

namespace Reads

def nextWifi (r : Reads) : Reads := { r with wifi := r.wifi + 1 }
def nextTick (r : Reads) : Reads := { r with tick := r.tick + 1 }

@[simp] theorem nextWifi_tick (r : Reads) : r.nextWifi.tick = r.tick := rfl
@[simp] theorem nextTick_tick (r : Reads) : r.nextTick.tick = r.tick + 1 := rfl

end Reads

/-- `while (WiFi.status() != WL_CONNECTED && millis() - startTime < 30000) delay(500);`
`none` means the loop is still running after `fuel` passes. -/
def connectLoop (wifi : Nat → Bool) (uptime : Nat → Nat) (startTime : UInt32) :
    Nat → Reads → Option Reads
  | 0, _ => none
  | fuel + 1, r =>
    if wifi r.wifi then some r.nextWifi
    else if millis (uptime r.tick) - startTime < 30000 then
      connectLoop wifi uptime startTime fuel r.nextWifi.nextTick
    else some r.nextWifi.nextTick

/-- `connectToWiFi`. The status read after the loop only chooses the message. -/
def connectToWiFi (wifi : Nat → Bool) (uptime : Nat → Nat) (fuel : Nat) (r : Reads) :
    Option Reads :=
  (connectLoop wifi uptime (millis (uptime r.tick)) fuel r.nextTick).map Reads.nextWifi

/-! ## How long the loop waits -/

/-- Pass number `i` of the loop begins: Wi-Fi has not been connected so far, and the counter never
showed 30 s since the start at instant `r.tick`. -/
def WaitsOn (wifi : Nat → Bool) (uptime : Nat → Nat) (r : Reads) (i : Nat) : Prop :=
  ∀ j ≤ i, wifi (r.wifi + j) = false ∧
    millis (uptime (r.tick + 1 + j)) - millis (uptime r.tick) < 30000

/-- Each pass, from one look at the counter to the next, takes 500 ms or more, and at most `D`. -/
def Paced (wifi : Nat → Bool) (uptime : Nat → Nat) (r : Reads) (D : Nat) : Prop :=
  ∀ i, WaitsOn wifi uptime r i →
    uptime (r.tick + 1 + i) + 500 ≤ uptime (r.tick + 1 + i + 1) ∧
      uptime (r.tick + 1 + i + 1) ≤ uptime (r.tick + 1 + i) + D

section Loop

variable {wifi : Nat → Bool} {uptime : Nat → Nat} {r : Reads} {D : Nat}

/-- The time since the start, as the counter shows it, does not wrap during a pass. -/
theorem shown_step {a b c : Nat} (hab : a ≤ b) (hD : 30000 + D < period)
    (hshown : (b - a) % period < 30000) (hc : b + 500 ≤ c) (hc' : c ≤ b + D) :
    (b - a) % period + 500 ≤ (c - a) % period := by
  unfold period at *
  omega

/-- After a pass that goes on, the counter shows 500 ms more; there are at most 60 of them. -/
theorem WaitsOn.next {i : Nat} (h : WaitsOn wifi uptime r i) (hD : 30000 + D < period)
    (hpass : Paced wifi uptime r D) (hstart : uptime r.tick ≤ uptime (r.tick + 1 + i))
    (hshown : 500 * i ≤ (uptime (r.tick + 1 + i) - uptime r.tick) % period) :
    i + 1 ≤ 60 ∧ uptime r.tick ≤ uptime (r.tick + 1 + (i + 1)) ∧
      500 * (i + 1) ≤ (uptime (r.tick + 1 + (i + 1)) - uptime r.tick) % period := by
  obtain ⟨hmin, hmax⟩ := hpass i h
  have hlt : (uptime (r.tick + 1 + i) - uptime r.tick) % period < 30000 := by
    rw [← elapsed_toNat hstart]
    exact UInt32.lt_iff_toNat_lt.mp (h i (Nat.le_refl i)).2
  have hnext := shown_step hstart hD hlt hmin hmax
  rw [← Nat.add_assoc (r.tick + 1)]
  omega

/-- By induction on the fuel: at pass `i` the counter shows `500 * i` ms or more. -/
theorem connectLoop_from (hD : 30000 + D < period) (hpass : Paced wifi uptime r D) {i : Nat}
    (hi : i ≤ 60) (hstart : uptime r.tick ≤ uptime (r.tick + 1 + i))
    (hshown : 500 * i ≤ (uptime (r.tick + 1 + i) - uptime r.tick) % period)
    (hbefore : ∀ j < i, wifi (r.wifi + j) = false ∧
      millis (uptime (r.tick + 1 + j)) - millis (uptime r.tick) < 30000)
    {fuel : Nat} (hfuel : 61 ≤ fuel + i) :
    ∃ r', connectLoop wifi uptime (millis (uptime r.tick)) fuel ⟨r.wifi + i, r.tick + 1 + i⟩ =
        some r' ∧ r.wifi < r'.wifi ∧ r'.wifi ≤ r.wifi + 61 ∧
      (wifi (r'.wifi - 1) = true ∨ uptime r.tick + 30000 ≤ uptime (r'.tick - 1)) := by
  induction fuel generalizing i with
  | zero => omega
  | succ fuel ih =>
    rw [connectLoop]
    have helapsed := elapsed_toNat hstart
    cases hwifi : wifi (r.wifi + i) with
    | true =>
      refine ⟨⟨r.wifi + i + 1, r.tick + 1 + i⟩, rfl, by simp only; omega, by simp only; omega, ?_⟩
      exact .inl hwifi
    | false =>
      simp only [Bool.false_eq_true, if_false]
      split
      · rename_i hlt
        have hwaits : WaitsOn wifi uptime r i := by
          intro j hj
          rcases Nat.lt_or_eq_of_le hj with hj | rfl
          · exact hbefore j hj
          · exact ⟨hwifi, hlt⟩
        obtain ⟨hi', hstart', hshown'⟩ := hwaits.next hD hpass hstart hshown
        exact @ih (i + 1) hi' hstart' hshown' (fun j hj => hwaits j (by omega)) (by omega)
      · rename_i hge
        refine ⟨⟨r.wifi + i + 1, r.tick + 1 + i + 1⟩, rfl, by simp only; omega,
          by simp only; omega, .inr ?_⟩
        have hge' : 30000 ≤ (uptime (r.tick + 1 + i) - uptime r.tick) % period := by
          rw [← helapsed]
          exact Nat.le_of_not_lt fun h => hge (UInt32.lt_iff_toNat_lt.mpr h)
        have := Nat.mod_le (uptime (r.tick + 1 + i) - uptime r.tick) period
        simp only [Nat.add_sub_cancel]
        omega

/-- Whatever the counter shows at the start, the loop ends after at most 60 passes (one read of the
status is made before each and one at the end), and then either its last read was connected or 30 s
of true time have passed since it started. -/
theorem connectLoop_ends (hstart : uptime r.tick ≤ uptime (r.tick + 1))
    (hpass : Paced wifi uptime r D) (hD : 30000 + D < period) {fuel : Nat} (hfuel : 61 ≤ fuel) :
    ∃ r', connectLoop wifi uptime (millis (uptime r.tick)) fuel r.nextTick = some r' ∧
      connectToWiFi wifi uptime fuel r = some r'.nextWifi ∧
      r.wifi < r'.wifi ∧ r'.wifi - 1 - r.wifi ≤ 60 ∧
      (wifi (r'.wifi - 1) = true ∨ uptime r.tick + 30000 ≤ uptime (r'.tick - 1)) := by
  obtain ⟨r', hr, hlt, hle, hend⟩ := connectLoop_from hD hpass (Nat.zero_le 60) hstart
    (Nat.zero_le _) (by simp) hfuel
  refine ⟨r', hr, ?_, hlt, by omega, hend⟩
  rw [connectToWiFi]
  exact congrArg (Option.map Reads.nextWifi) hr

end Loop

/-- Wi-Fi stays away, and the counter wraps in the second pass. -/
theorem connectLoop_ends_wrap :
    let uptime := fun k => 4294966500 + 500 * k
    ∃ r', connectLoop (fun _ => false) uptime (millis (uptime 0)) 61 (Reads.nextTick {}) = some r' ∧
      connectToWiFi (fun _ => false) uptime 61 {} = some r'.nextWifi ∧
      0 < r'.wifi ∧ r'.wifi - 1 - 0 ≤ 60 ∧
      (false = true ∨ uptime 0 + 30000 ≤ uptime (r'.tick - 1)) := by
  intro uptime
  have hpass : Paced (fun _ => false) uptime {} 500 := by
    intro i _
    simp only [uptime]
    omega
  exact @connectLoop_ends (fun _ => false) uptime {} 500 (by simp only [uptime]; omega) hpass
    (by decide) 61 (Nat.le_refl 61)

end TimerCam

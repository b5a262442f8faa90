import Mathlib.Algebra.Group.Nat.Defs

/-!
# Lib.Uptime

A 32-bit millisecond counter over true time: it shows the true uptime modulo `2 ^ 32`.

* `deadline_lt_iff`  : the test of a stored deadline `millis() + d` by `<`, in true time.
* `passes_early_iff` : when the test lets a call before the true deadline pass.
* `elapsed_toNat`    : the difference of two counter values, in true time.
-/

namespace Uptime

def period : Nat := 2 ^ 32

/-- `millis()` at the true uptime `t`. -/
def millis (t : Nat) : UInt32 := UInt32.ofNat t

@[simp] theorem millis_toNat (t : Nat) : (millis t).toNat = t % period := by
  simp [millis, period]

/-! ## A stored deadline -/

theorem deadline_lt_iff (a b : Nat) (d : UInt32) :
    millis a < millis b + d ↔ a % period < (b + d.toNat) % period := by
  rw [UInt32.lt_iff_toNat_lt, UInt32.toNat_add, millis_toNat, millis_toNat]
  simp [period]

section Deadline

variable {W a b d : Nat}

/-- Before the deadline `b + d` the counter shows a value past it exactly when the counter has
still to wrap on the way to the deadline. -/
theorem passes_early_iff (hd : d ≤ W) (hb : b ≤ a) (ha : a < b + d) :
    (b + d) % W ≤ a % W ↔ a / W < (b + d) / W := by
  have hW : 0 < W := by omega
  have ea := Nat.div_add_mod a W
  have eb := Nat.div_add_mod (b + d) W
  have ra := Nat.mod_lt a hW
  have rb := Nat.mod_lt (b + d) hW
  have hle : a / W ≤ (b + d) / W := Nat.div_le_div_right (by omega)
  constructor
  · intro h
    refine Nat.lt_of_le_of_ne hle fun heq => ?_
    rw [heq] at ea
    omega
  · intro h
    obtain ⟨j, hj⟩ : ∃ j, (b + d) / W = a / W + 1 + j := ⟨(b + d) / W - (a / W + 1), by omega⟩
    rw [hj, Nat.mul_add, Nat.mul_add, Nat.mul_one] at eb
    have := Nat.zero_le (W * j)
    omega

end Deadline

/-! ## Elapsed time -/

theorem elapsed_toNat {a b : Nat} (h : a ≤ b) : (millis b - millis a).toNat = (b - a) % period := by
  have hb : b = a + (b - a) := by omega
  have ha := Nat.mod_lt a (show 0 < period by decide)
  rw [UInt32.toNat_sub, millis_toNat, millis_toNat]
  unfold period at ha ⊢
  omega

end Uptime

import Mathlib.Data.Nat.Find
import Mathlib.Order.Monotone.Basic
import Mathlib.Order.WellFounded

/-!
# Lib.Polling

A loop that starts a job at every mark of a clock by looking at the clock again and again. Pass `i`
looks at the time `look i`; where its look is due it is busy with a job until `done i`; then it
sleeps.

* `Polls`       : what is asked of the looks and the sleeps.
* `Polls.last`  : the pass that looks last before a mark.
* `prompt_iff`  : every mark that finds the loop free gets a job within `fine` exactly when no sleep
  that begins before a mark goes `fine` or more past it.
-/

namespace Polling

/-- The marks are any set of times. A look that is not due sleeps `fine` or less into the first mark
after it, and the first look at or after a mark is due. -/
structure Polls (Mark : Nat → Prop) (fine : Nat) (look done sleep : Nat → Nat) (due : Nat → Prop) :
    Prop where
  busy : ∀ i, look i ≤ done i
  idle : ∀ i, ¬ due i → done i = look i
  next : ∀ i, look (i + 1) = done i + sleep i
  moves : ∀ i, 0 < sleep i
  early : ∀ i B, Mark B → look i < B → B ≤ look (i + 1) → ¬ due i → sleep i ≤ fine
  first : ∀ i B, Mark B → look i < B → B ≤ look (i + 1) → due (i + 1)

namespace Polls

variable {Mark : Nat → Prop} {fine : Nat} {look done sleep : Nat → Nat} {due : Nat → Prop}

theorem strictMono (h : Polls Mark fine look done sleep due) : StrictMono look := by
  refine strictMono_nat_of_lt_succ fun i => ?_
  have := h.busy i
  have := h.moves i
  rw [h.next]
  omega

theorem done_lt (h : Polls Mark fine look done sleep due) (i : Nat) : done i < look (i + 1) := by
  have := h.moves i
  rw [h.next]
  omega

/-- The last look before `B`. -/
theorem last (h : Polls Mark fine look done sleep due) {B : Nat} (hB : look 0 < B) :
    ∃ i, look i < B ∧ B ≤ look (i + 1) := by
  have hex : ∃ i, B ≤ look i := ⟨B, h.strictMono.le_apply⟩
  obtain ⟨hle, hmin⟩ : B ≤ look (Nat.find hex) ∧ ∀ m < Nat.find hex, ¬ B ≤ look m :=
    ⟨Nat.find_spec hex, fun m hm => Nat.find_min hex hm⟩
  cases hi : Nat.find hex with
  | zero =>
    rw [hi] at hle
    omega
  | succ i =>
    rw [hi] at hle hmin
    exact ⟨i, Nat.lt_of_not_le (hmin i (Nat.lt_succ_self i)), hle⟩

/-- A job before the last look is over at that look. -/
theorem done_le_of_lt (h : Polls Mark fine look done sleep due) {i j : Nat} (hij : i < j) :
    done i ≤ look j :=
  Nat.le_trans (Nat.le_of_lt (h.done_lt i)) (h.strictMono.monotone hij)

theorem prompt_iff (h : Polls Mark fine look done sleep due) (hfine : 0 < fine) :
    (∀ B, Mark B → look 0 < B → (∀ i, due i → ¬ (look i ≤ B ∧ B < done i)) →
      ∃ i, due i ∧ B ≤ look i ∧ look i < B + fine) ↔
    ∀ i B, due i → Mark B → look i < B → done i ≤ B → done i + sleep i < B + fine := by
  constructor
  · intro htime i B hdue hmark hlt hle
    by_contra hlate
    have hstart : look 0 < B := Nat.lt_of_le_of_lt (h.strictMono.monotone (Nat.zero_le i)) hlt
    have hnext := h.next i
    -- at `B` the loop sleeps, and its next look comes too late
    obtain ⟨j, hj, hBj, hjB⟩ := htime B hmark hstart fun j _ hbusy => by
      rcases Nat.lt_trichotomy j i with hji | rfl | hij
      · have := h.done_le_of_lt hji
        omega
      · omega
      · have := h.strictMono.monotone (Nat.succ_le_of_lt hij)
        simp only [Nat.succ_eq_add_one] at this
        omega
    rcases Nat.lt_or_ge i j with hij | hji
    · have := h.strictMono.monotone (Nat.succ_le_of_lt hij)
      simp only [Nat.succ_eq_add_one] at this
      omega
    · have := h.strictMono.monotone hji
      omega
  · intro hlate B hmark hstart hfree
    obtain ⟨i, hlt, hle⟩ := h.last hstart
    refine ⟨i + 1, h.first i B hmark hlt hle, hle, ?_⟩
    rw [h.next]
    by_cases hdue : due i
    · have hdone : done i ≤ B := by
        have := hfree i hdue
        omega
      exact hlate i B hdue hmark hlt hdone
    · have := h.early i B hmark hlt hle hdue
      rw [h.idle i hdue]
      omega

end Polls

end Polling

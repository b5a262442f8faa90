import Mathlib.Algebra.GroupWithZero.Nat

/-!
# Lib.Calendar

Gregorian dates from day numbers, by the two loops of a C library: whole years are taken off the
day number while they fit, then whole months.

* `locate`      : the loop, over any sequence of positive lengths. `locate_lt` says it keeps order.
* `Date.ofDays` : the date of a day counted from 1 January 1970.
* `ofDays_lt`   : later days have later dates, field by field.
-/

namespace Calendar

/-! ## Taking lengths off a number -/

/-- Take `len k`, `len (k + 1)`, … off `d` while they fit: the index reached and the rest. -/
def locate (len : Nat → Nat) (hpos : ∀ k, 0 < len k) (k d : Nat) : Nat × Nat :=
  if d < len k then (k, d) else locate len hpos (k + 1) (d - len k)
termination_by d
decreasing_by have := hpos k; omega

section Locate

variable (len : Nat → Nat) (hpos : ∀ k, 0 < len k)

theorem locate_of_lt {k d : Nat} (h : d < len k) : locate len hpos k d = (k, d) := by
  rw [locate, if_pos h]

theorem locate_of_le {k d : Nat} (h : len k ≤ d) :
    locate len hpos k d = locate len hpos (k + 1) (d - len k) := by
  rw [locate, if_neg (by omega)]

theorem le_locate (k d : Nat) : k ≤ (locate len hpos k d).1 := by
  induction k, d using locate.induct len hpos with
  | case1 k d h => exact Nat.le_of_eq (by rw [locate_of_lt len hpos h])
  | case2 k d h ih =>
    rw [locate_of_le len hpos (by omega)]
    omega

theorem locate_snd_lt (k d : Nat) : (locate len hpos k d).2 < len (locate len hpos k d).1 := by
  induction k, d using locate.induct len hpos with
  | case1 k d h => rw [locate_of_lt len hpos h]; exact h
  | case2 k d h ih => rw [locate_of_le len hpos (by omega)]; exact ih

theorem locate_lt (k d : Nat) : ∀ d', d < d' →
    (locate len hpos k d).1 < (locate len hpos k d').1 ∨
      (locate len hpos k d).1 = (locate len hpos k d').1 ∧
        (locate len hpos k d).2 < (locate len hpos k d').2 := by
  induction k, d using locate.induct len hpos with
  | case1 k d h =>
    intro d' hd
    rw [locate_of_lt len hpos h]
    by_cases h' : d' < len k
    · rw [locate_of_lt len hpos h']; exact .inr ⟨rfl, hd⟩
    · have := le_locate len hpos (k + 1) (d' - len k)
      rw [locate_of_le len hpos (by omega)]
      left; omega
  | case2 k d h ih =>
    intro d' hd
    rw [locate_of_le len hpos (by omega), locate_of_le len hpos (k := k) (d := d') (by omega)]
    exact ih _ (by omega)

/-- The first `n` lengths are not all taken when their sum is larger than the number. -/
theorem locate_fst_lt : ∀ (n k d : Nat), d < ((List.range n).map fun i => len (k + i)).sum →
    (locate len hpos k d).1 < k + n := by
  intro n
  induction n with
  | zero => intro k d h; simp at h
  | succ n ih =>
    intro k d h
    rw [List.range_succ_eq_map, List.map_cons, List.sum_cons, List.map_map] at h
    by_cases hd : d < len k
    · rw [locate_of_lt len hpos hd]
      simp only; omega
    · rw [locate_of_le len hpos (by omega)]
      have hsum : ((fun i => len (k + i)) ∘ Nat.succ) = fun i => len (k + 1 + i) := by
        funext i
        simp only [Function.comp_apply]
        congr 1
        omega
      rw [hsum, Nat.add_zero] at h
      have := ih (k + 1) (d - len k) (by omega)
      omega

end Locate

/-! ## Dates -/

def isLeap (y : Nat) : Bool := (y % 4 == 0 && y % 100 != 0) || y % 400 == 0

def yearLength (y : Nat) : Nat := if isLeap y then 366 else 365

/-- Days in the month `m` of the year `y`, January being `0`. -/
def monthLength (y m : Nat) : Nat :=
  if m = 1 then (if isLeap y then 29 else 28)
  else if m = 3 ∨ m = 5 ∨ m = 8 ∨ m = 10 then 30
  else 31

theorem yearLength_pos (y : Nat) : 0 < yearLength y := by
  simp only [yearLength]; split <;> omega

theorem monthLength_pos (y m : Nat) : 0 < monthLength y m := by
  simp only [monthLength]; split <;> (try split) <;> omega

theorem monthLength_le (y m : Nat) : monthLength y m ≤ 31 := by
  simp only [monthLength]; split <;> (try split) <;> omega

theorem sum_monthLength (y : Nat) :
    ((List.range 12).map fun i => monthLength y (0 + i)).sum = yearLength y := by
  simp only [monthLength, yearLength]
  cases isLeap y <;> rfl

/-- `month` counts from 0 (January), `day` from 0 (the first). -/
structure Date where
  year : Nat
  month : Nat
  day : Nat
deriving DecidableEq, Repr

/-- The day `r` of the year `y`, the first being `0`. -/
def Date.inYear (y r : Nat) : Date :=
  let m := locate (monthLength y) (monthLength_pos y) 0 r
  ⟨y, m.1, m.2⟩

def Date.ofDays (n : Nat) : Date :=
  let y := locate yearLength yearLength_pos 1970 n
  Date.inYear y.1 y.2

theorem Date.le_year (n : Nat) : 1970 ≤ (Date.ofDays n).year := le_locate _ _ _ _

theorem Date.month_lt (n : Nat) : (Date.ofDays n).month < 12 := by
  have hr := locate_snd_lt yearLength yearLength_pos 1970 n
  rw [← sum_monthLength] at hr
  have := locate_fst_lt _ (monthLength_pos _) 12 0 _ hr
  rw [Nat.zero_add] at this
  exact this

theorem Date.day_lt (n : Nat) : (Date.ofDays n).day < 31 :=
  Nat.lt_of_lt_of_le (locate_snd_lt _ (monthLength_pos _) 0 _) (monthLength_le _ _)

def Date.Before (a b : Date) : Prop :=
  a.year < b.year ∨ a.year = b.year ∧ (a.month < b.month ∨ a.month = b.month ∧ a.day < b.day)

theorem Date.inYear_lt (y : Nat) {r s : Nat} (h : r < s) :
    (Date.inYear y r).Before (Date.inYear y s) :=
  .inr ⟨rfl, locate_lt (monthLength y) (monthLength_pos y) 0 r s h⟩

theorem Date.ofDays_lt {n m : Nat} (h : n < m) : (Date.ofDays n).Before (Date.ofDays m) := by
  rcases locate_lt yearLength yearLength_pos 1970 n m h with hy | ⟨hy, hr⟩
  · exact .inl hy
  · rw [Date.ofDays, Date.ofDays, hy]
    exact Date.inYear_lt _ hr

example : Date.ofDays 19782 = ⟨2024, 1, 28⟩ := by decide +kernel

end Calendar

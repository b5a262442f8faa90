import TimerCam.Lib.Octets
import TimerCam.Lib.Uptime

/-!
# Lib.Wire

What comes in on a connection, as the reader sees it: octets, and pauses in which nothing comes.

* `available`, `scan` : the octets that are there, and a loop that takes them one by one and gives up
  when nothing has come for too long.
* `Carries`           : some octets come, and the pauses before them are short.
* `scan_takes`        : then the loop takes them all.
-/

namespace Wire

open Octets Uptime

/-- A pause lasts from one look at the clock to the next. -/
inductive Item where
  | octet (c : UInt8)
  | pause (ms : Nat)
deriving DecidableEq

/-- How many octets can be read without waiting. -/
def available : List Item → Nat
  | .octet _ :: w => available w + 1
  | _ => 0

/-- All octets that come in. -/
def octets (w : List Item) : Bytes :=
  w.filterMap fun
    | .octet c => some c
    | .pause _ => none

/-- Octets that are all there. -/
def ready (s : Bytes) : List Item := s.map .octet

@[simp] theorem ready_nil : ready [] = [] := rfl

@[simp] theorem ready_cons (c : UInt8) (s : Bytes) : ready (c :: s) = .octet c :: ready s := rfl

theorem ready_append (s t : Bytes) : ready (s ++ t) = ready s ++ ready t := List.map_append

theorem available_ready (s : Bytes) (w : List Item) :
    available (ready s ++ w) = s.length + available w := by
  induction s with
  | nil => exact (Nat.zero_add _).symm
  | cons c s ih =>
    rw [ready_cons, List.cons_append, available, ih, List.length_cons]
    omega

/-! ## Reading with a time limit -/

section Scan

variable {σ : Type} (limit : Nat) (step : σ → UInt8 → σ) (isOver : σ → Bool)

/-- `while (!isOver() && millis() - start < limit)`: an octet that is there goes to `step` and starts the
clock again, else the loop waits. `t` is the time since the clock was started; when nothing comes any
more, it runs out. -/
def scan : Nat → σ → List Item → σ × List Item
  | _, s, [] => (s, [])
  | t, s, .octet c :: w =>
    if isOver s ∨ limit ≤ t % period then (s, .octet c :: w) else scan 0 (step s c) w
  | t, s, .pause ms :: w =>
    if isOver s ∨ limit ≤ t % period then (s, .pause ms :: w) else scan (t + ms) s w

theorem scan_over {s : σ} (h : isOver s = true) (t : Nat) (w : List Item) :
    scan limit step isOver t s w = (s, w) := by
  cases w with
  | nil => rfl
  | cons i w =>
    cases i with
    | octet c => rw [scan, if_pos (.inl h)]
    | pause ms => rw [scan, if_pos (.inl h)]

theorem scan_length (t : Nat) (s : σ) (w : List Item) :
    (scan limit step isOver t s w).2.length ≤ w.length := by
  induction w generalizing t s with
  | nil => exact Nat.le_refl _
  | cons i w ih =>
    cases i with
    | octet c =>
      rw [scan]
      split
      · exact Nat.le_refl _
      · exact Nat.le_succ_of_le (ih _ _)
    | pause ms =>
      rw [scan]
      split
      · exact Nat.le_refl _
      · exact Nat.le_succ_of_le (ih _ _)

/-- Unless the state has stayed as it was, something has been taken. -/
theorem scan_length_lt (t : Nat) (s : σ) (w : List Item)
    (h : (scan limit step isOver t s w).1 ≠ s) :
    (scan limit step isOver t s w).2.length < w.length := by
  induction w generalizing t with
  | nil => exact absurd rfl h
  | cons i w ih =>
    cases i with
    | octet c =>
      rw [scan] at h ⊢
      split at h
      · exact absurd rfl h
      · rename_i hgo
        rw [if_neg hgo]
        exact Nat.lt_succ_of_le (scan_length ..)
    | pause ms =>
      rw [scan] at h ⊢
      split at h
      · exact absurd rfl h
      · rename_i hgo
        rw [if_neg hgo]
        exact Nat.lt_succ_of_lt (ih _ h)

end Scan

/-! ## Octets that come in time -/

/-- After `t` ms of waiting the octets `s` come in on `w`, and then `rest`. A mark on an octet says
that it starts the clock again; no octet comes as late as `limit` ms after the last that does. -/
inductive Carries (limit : Nat) : Nat → List Item → List (UInt8 × Bool) → List Item → Prop where
  | nil {t : Nat} {rest : List Item} : Carries limit t rest [] rest
  | octet {t : Nat} {c : UInt8} {mark : Bool} {w rest : List Item} {s : List (UInt8 × Bool)}
      (h : Carries limit (if mark then 0 else t) w s rest) :
      Carries limit t (.octet c :: w) ((c, mark) :: s) rest
  | pause {t ms : Nat} {m : UInt8 × Bool} {w rest : List Item} {s : List (UInt8 × Bool)}
      (hms : t + ms < limit) (h : Carries limit (t + ms) w (m :: s) rest) :
      Carries limit t (.pause ms :: w) (m :: s) rest

/-- The octets of `s`, all with one mark. -/
def marked (mark : Bool) (s : Bytes) : List (UInt8 × Bool) := s.map (·, mark)

@[simp] theorem marked_nil (mark : Bool) : marked mark [] = [] := rfl

@[simp] theorem marked_cons (mark : Bool) (c : UInt8) (s : Bytes) :
    marked mark (c :: s) = (c, mark) :: marked mark s := rfl

theorem marked_append (mark : Bool) (s t : Bytes) :
    marked mark (s ++ t) = marked mark s ++ marked mark t := List.map_append

/-- What is there comes in time. -/
theorem carries_ready {limit : Nat} (s : List (UInt8 × Bool)) (t : Nat) (rest : List Item) :
    Carries limit t (ready (s.map Prod.fst) ++ rest) s rest := by
  induction s generalizing t with
  | nil => exact .nil
  | cons c s ih => exact .octet (ih _)

theorem Carries.eq_of_nil {limit t : Nat} {w rest : List Item} (h : Carries limit t w [] rest) :
    w = rest := by
  cases h
  rfl

theorem Carries.split {limit t : Nat} {w rest : List Item} {a b : List (UInt8 × Bool)}
    (h : Carries limit t w (a ++ b) rest) (ht : t < limit) :
    ∃ t' mid, t' < limit ∧ Carries limit t w a mid ∧ Carries limit t' mid b rest := by
  generalize hs : a ++ b = s at h
  induction h generalizing a with
  | nil =>
    obtain ⟨rfl, rfl⟩ := List.append_eq_nil_iff.mp hs
    exact ⟨_, _, ht, .nil, .nil⟩
  | @octet t c mark w rest s h ih =>
    cases a with
    | nil =>
      obtain rfl := hs
      exact ⟨t, _, ht, .nil, .octet h⟩
    | cons d a =>
      obtain ⟨rfl, rfl⟩ := List.cons.inj hs
      have hnext : (if mark then 0 else t) < limit := by
        split <;> omega
      obtain ⟨t', mid, ht', h₁, h₂⟩ := ih hnext rfl
      exact ⟨t', mid, ht', .octet h₁, h₂⟩
  | @pause t ms m w rest s hms h ih =>
    cases a with
    | nil =>
      obtain rfl := hs
      exact ⟨t, _, ht, .nil, .pause hms h⟩
    | cons d a =>
      obtain ⟨rfl, rfl⟩ := List.cons.inj hs
      obtain ⟨t', mid, ht', h₁, h₂⟩ := @ih (d :: a) hms rfl
      exact ⟨t', mid, ht', .pause hms h₁, h₂⟩

theorem Carries.mono {limit t t' : Nat} {w rest : List Item} {s : List (UInt8 × Bool)}
    (h : Carries limit t w s rest) (ht : t' ≤ t) : Carries limit t' w s rest := by
  induction h generalizing t' with
  | nil => exact .nil
  | @octet t c mark w rest s h ih =>
    refine .octet (ih ?_)
    split
    · exact Nat.le_refl _
    · exact ht
  | @pause t ms m w rest s hms h ih => exact .pause (by omega) (ih (by omega))

/-- Nothing comes for `limit` ms. -/
def Silent (limit : Nat) (w : List Item) : Prop :=
  w = [] ∨ ∃ ms w', w = .pause ms :: w' ∧ limit ≤ ms ∧ ms + limit ≤ period

/-! ## The loop on octets that come in time -/

section Takes

variable {σ : Type} {step : σ → UInt8 → σ} {isOver : σ → Bool}

/-- The octets `a` lead from `s` to `s'`, and it is not over before the last of them is taken. -/
inductive Takes (step : σ → UInt8 → σ) (isOver : σ → Bool) : σ → Bytes → σ → Prop where
  | nil {s : σ} : Takes step isOver s [] s
  | cons {s s' : σ} {c : UInt8} {a : Bytes} (hgo : isOver s = false)
      (h : Takes step isOver (step s c) a s') : Takes step isOver s (c :: a) s'

theorem Takes.trans {s s₁ s₂ : σ} {a b : Bytes} (h₁ : Takes step isOver s a s₁)
    (h₂ : Takes step isOver s₁ b s₂) : Takes step isOver s (a ++ b) s₂ := by
  induction h₁ with
  | nil => exact h₂
  | cons hgo h ih => exact .cons hgo (ih h₂)

theorem Takes.concat {s s₁ : σ} {a : Bytes} (h : Takes step isOver s a s₁) (hgo : isOver s₁ = false)
    (c : UInt8) : Takes step isOver s (a ++ [c]) (step s₁ c) :=
  h.trans (.cons hgo .nil)

/-- A property that every step keeps, and with which it is not over. -/
theorem Takes.of_inv {P : σ → Prop} {Q : UInt8 → Prop} (hstep : ∀ s c, P s → Q c → P (step s c))
    (hgo : ∀ s, P s → isOver s = false) {a : Bytes} (ha : ∀ c ∈ a, Q c) {s : σ} (hs : P s) :
    Takes step isOver s a (a.foldl step s) ∧ P (a.foldl step s) := by
  induction a generalizing s with
  | nil => exact ⟨.nil, hs⟩
  | cons c a ih =>
    obtain ⟨h₁, h₂⟩ := ih (fun d hd => ha d (List.mem_cons_of_mem _ hd))
      (hstep s c hs (ha c (List.mem_cons_self ..)))
    exact ⟨.cons (hgo s hs) h₁, h₂⟩

/-- While it is not over, the loop takes the octets that come in time. -/
theorem scan_of_carries {limit : Nat} (hlimit : limit ≤ period) {t : Nat} {w rest : List Item}
    {a : Bytes} (h : Carries limit t w (marked true a) rest) (ht : t < limit) {s s' : σ}
    (htakes : Takes step isOver s a s') :
    ∃ t' < limit, scan limit step isOver t s w = scan limit step isOver t' s' rest := by
  have hgoes : ∀ {t : Nat} {s : σ}, t < limit → isOver s = false →
      ¬ (isOver s = true ∨ limit ≤ t % period) := by
    intro t s ht hgo
    rw [hgo, Nat.mod_eq_of_lt (by omega)]
    simp only [Bool.false_eq_true, false_or]
    omega
  generalize hm : marked true a = m at h
  induction h generalizing a s with
  | nil =>
    obtain rfl := List.map_eq_nil_iff.mp hm
    cases htakes
    exact ⟨_, ht, rfl⟩
  | @octet t c mark w rest m h ih =>
    cases htakes with
    | nil => cases hm
    | @cons _ _ d a hgo hnext =>
      obtain ⟨hd, rfl⟩ := List.cons.inj hm
      obtain ⟨rfl, rfl⟩ := Prod.mk.inj hd
      rw [scan, if_neg (hgoes ht hgo)]
      exact ih (Nat.lt_of_le_of_lt (Nat.zero_le _) ht) hnext rfl
  | @pause t ms m w rest s'' hms h ih =>
    have hgo : isOver s = false := by
      cases htakes with
      | nil => cases hm
      | cons hgo _ => exact hgo
    rw [scan, if_neg (hgoes ht hgo)]
    exact ih hms htakes hm

/-- When it is over then, what follows is left. -/
theorem scan_takes {limit : Nat} (hlimit : limit ≤ period) {t : Nat} {w rest : List Item} {a : Bytes}
    (h : Carries limit t w (marked true a) rest) (ht : t < limit) {s s' : σ}
    (htakes : Takes step isOver s a s') (hover : isOver s' = true) :
    scan limit step isOver t s w = (s', rest) := by
  obtain ⟨t', -, he⟩ := scan_of_carries hlimit h ht htakes
  rw [he, scan_over _ _ _ hover]

end Takes

end Wire

import Mathlib.Tactic.Common

/-!
# Lib.Lease

One loanable resource at a time. A program acquires a handle from a pool (or gets nothing),
touches what it holds, and releases it.

* `Run h es h'` : from holding `h`, the events `es` keep the discipline and leave `h'` held.
* `held`        : what a trace has acquired and not released, whether it keeps the discipline or
  not. `Run.held_eq` ties the two.
* `Run.mid_*`   : what the discipline says at any point of a trace.
* `Run.moves`   : a trace that ends with nothing held is a sequence of episodes: every handle
  acquired is released once, and before the next acquisition.
-/

namespace Lease

variable {ρ : Type}

inductive Ev (ρ : Type) where
  /-- The pool was asked and gave `got`. -/
  | acquire (got : Option ρ)
  | release (r : ρ)
  /-- An access that needs the handle `r` to be valid. -/
  | touch (r : Option ρ)

inductive Run : Option ρ → List (Ev ρ) → Option ρ → Prop where
  | nil {h : Option ρ} : Run h [] h
  | acquire {got h : Option ρ} {es : List (Ev ρ)} :
      Run got es h → Run none (.acquire got :: es) h
  | touch {r : ρ} {h : Option ρ} {es : List (Ev ρ)} :
      Run (some r) es h → Run (some r) (.touch (some r) :: es) h
  | release {r : ρ} {h : Option ρ} {es : List (Ev ρ)} :
      Run none es h → Run (some r) (.release r :: es) h

namespace Run

theorem trans {h₁ h₂ h₃ : Option ρ} {es₁ es₂ : List (Ev ρ)}
    (r₁ : Run h₁ es₁ h₂) (r₂ : Run h₂ es₂ h₃) : Run h₁ (es₁ ++ es₂) h₃ := by
  induction r₁ with
  | nil => exact r₂
  | acquire _ ih => exact .acquire (ih r₂)
  | touch _ ih => exact .touch (ih r₂)
  | release _ ih => exact .release (ih r₂)

theorem split {es₁ es₂ : List (Ev ρ)} : ∀ {h h' : Option ρ}, Run h (es₁ ++ es₂) h' →
    ∃ m, Run h es₁ m ∧ Run m es₂ h' := by
  induction es₁ with
  | nil => intro h h' r; exact ⟨h, .nil, r⟩
  | cons e es ih =>
    intro h h' r
    cases r with
    | acquire r => obtain ⟨m, r₁, r₂⟩ := ih r; exact ⟨m, .acquire r₁, r₂⟩
    | touch r => obtain ⟨m, r₁, r₂⟩ := ih r; exact ⟨m, .touch r₁, r₂⟩
    | release r => obtain ⟨m, r₁, r₂⟩ := ih r; exact ⟨m, .release r₁, r₂⟩

end Run

/-! ## What a trace holds -/

section Held

variable [DecidableEq ρ]

def Ev.apply (hs : List ρ) : Ev ρ → List ρ
  | .acquire (some r) => r :: hs
  | .acquire none => hs
  | .release r => hs.erase r
  | .touch _ => hs

def held (es : List (Ev ρ)) : List ρ := es.foldl Ev.apply []

theorem Run.foldl_eq {h h' : Option ρ} {es : List (Ev ρ)} (r : Run h es h') :
    es.foldl Ev.apply h.toList = h'.toList := by
  induction r with
  | nil => rfl
  | @acquire got h es _ ih =>
    rw [List.foldl_cons, ← ih]
    cases got <;> rfl
  | touch _ ih => rw [List.foldl_cons]; exact ih
  | @release r h es _ ih =>
    rw [List.foldl_cons, ← ih]
    simp [Ev.apply]

theorem Run.held_eq {h : Option ρ} {es : List (Ev ρ)} (r : Run none es h) : held es = h.toList :=
  r.foldl_eq

theorem Run.held_prefix {h : Option ρ} {es₁ es₂ : List (Ev ρ)} (r : Run none (es₁ ++ es₂) h) :
    (held es₁).length ≤ 1 := by
  obtain ⟨m, r₁, _⟩ := r.split
  rw [r₁.held_eq]
  cases m <;> simp

theorem Run.mid_acquire {h got : Option ρ} {es₁ es₂ : List (Ev ρ)}
    (r : Run none (es₁ ++ .acquire got :: es₂) h) : held es₁ = [] := by
  obtain ⟨m, r₁, r₂⟩ := r.split
  cases r₂ with
  | acquire _ => exact r₁.held_eq

theorem Run.mid_touch {h x : Option ρ} {es₁ es₂ : List (Ev ρ)}
    (r : Run none (es₁ ++ .touch x :: es₂) h) : ∃ f, x = some f ∧ held es₁ = [f] := by
  obtain ⟨m, r₁, r₂⟩ := r.split
  cases r₂ with
  | @touch f _ _ _ => exact ⟨f, rfl, r₁.held_eq⟩

theorem Run.mid_release {h : Option ρ} {f : ρ} {es₁ es₂ : List (Ev ρ)}
    (r : Run none (es₁ ++ .release f :: es₂) h) : held es₁ = [f] := by
  obtain ⟨m, r₁, r₂⟩ := r.split
  cases r₂ with
  | release _ => exact r₁.held_eq

end Held

/-! ## Episodes -/

def moves (es : List (Ev ρ)) : List (Ev ρ) :=
  es.filter fun
    | .touch _ => false
    | _ => true

/-- Asking the pool, and giving back what it gave. -/
def episode : Option ρ → List (Ev ρ)
  | none => [.acquire none]
  | some r => [.acquire (some r), .release r]

/-- What the pool gave, in order. -/
def asked (es : List (Ev ρ)) : List (Option ρ) :=
  es.filterMap fun
    | .acquire got => some got
    | _ => none

theorem Run.moves_of {h : Option ρ} {es : List (Ev ρ)} (r : Run h es none) :
    moves es = (h.toList.map Ev.release) ++ (asked es).flatMap episode := by
  generalize hn : (none : Option ρ) = h' at r
  induction r with
  | nil => subst hn; rfl
  | @acquire got h es _ ih =>
    have ih := ih hn
    cases got with
    | none => simpa [moves, asked, episode] using ih
    | some r => simpa [moves, asked, episode] using ih
  | touch _ ih => simpa [moves, asked] using ih hn
  | release _ ih => simpa [moves, asked] using ih hn

theorem Run.moves_eq {es : List (Ev ρ)} (r : Run none es none) :
    moves es = (asked es).flatMap episode := r.moves_of

end Lease

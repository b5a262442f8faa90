import Mathlib.Tactic.Common

/-!
# Lib.History

Properties of a list of events in which each event is judged by the events before it.

* `Each Q l`    : `Q` holds of every event of `l` and the events before it.
* `each_append` : what is left to show when events are added.
-/

namespace History

variable {α : Type}

def Each (Q : List α → α → Prop) (l : List α) : Prop :=
  ∀ pre a post, l = pre ++ a :: post → Q pre a

@[simp] theorem each_nil (Q : List α → α → Prop) : Each Q [] := by
  intro pre a post h
  simp at h

theorem each_cons {Q : List α → α → Prop} {a : α} {l : List α} :
    Each Q (a :: l) ↔ Q [] a ∧ Each (fun pre b => Q (a :: pre) b) l := by
  constructor
  · intro h
    refine ⟨h [] a l rfl, ?_⟩
    rintro pre b post rfl
    exact h (a :: pre) b post rfl
  · rintro ⟨h₁, h₂⟩ pre b post h
    cases pre with
    | nil => cases h; exact h₁
    | cons c pre => cases h; exact h₂ pre b post rfl

theorem each_append {Q : List α → α → Prop} {l m : List α} :
    Each Q (l ++ m) ↔ Each Q l ∧ Each (fun pre b => Q (l ++ pre) b) m := by
  induction l generalizing Q with
  | nil => simp
  | cons a l ih => simp only [List.cons_append, each_cons, ih, and_assoc]

theorem each_concat {Q : List α → α → Prop} {l : List α} {a : α} :
    Each Q (l ++ [a]) ↔ Each Q l ∧ Q l a := by
  simp [each_append, each_cons]

end History

import Mathlib.Tactic.Common

/-!
# Lib.Builder

Text that grows by appends, each of which may find no memory and then adds nothing. `heap k` says
whether append number `k` finds memory.

* `append`, `plus` : an append that failed leaves the text; a sum that failed is emptied.
* `Adds b s n b'`  : from `b` to `b'` the text `s` was to be added, in `n` appends. Nothing is missing
  exactly when all of them succeed (`Adds.text_iff`).
-/

structure Builder (α : Type) where
  text : List α := []
  appends : Nat := 0

namespace Builder

variable {α : Type} (heap : Nat → Bool)

def append (b : Builder α) (s : List α) : Builder α :=
  { text := if heap b.appends then b.text ++ s else b.text, appends := b.appends + 1 }

def plus (b : Builder α) (s : List α) : Builder α :=
  { text := if heap b.appends then b.text ++ s else [], appends := b.appends + 1 }

def appendEach (b : Builder α) (cs : List α) : Builder α :=
  cs.foldl (fun b c => b.append heap [c]) b

structure Adds (b : Builder α) (s : List α) (n : Nat) (b' : Builder α) : Prop where
  appends : b'.appends = b.appends + n
  all : (∀ k, b.appends ≤ k → k < b.appends + n → heap k = true) → b'.text = b.text ++ s
  short : (∃ k, b.appends ≤ k ∧ k < b.appends + n ∧ heap k = false) →
    b'.text.length < b.text.length + s.length

variable {heap}

namespace Adds

variable {b b₁ b₂ : Builder α} {s t : List α} {n m : Nat}

theorem refl (b : Builder α) : Adds heap b [] 0 b where
  appends := rfl
  all _ := (List.append_nil _).symm
  short := by rintro ⟨k, h₁, h₂, -⟩; omega

theorem all_or_short (h : Adds heap b s n b₁) :
    b₁.text = b.text ++ s ∨ b₁.text.length < b.text.length + s.length := by
  by_cases hk : ∃ k, b.appends ≤ k ∧ k < b.appends + n ∧ heap k = false
  · exact .inr (h.short hk)
  · refine .inl (h.all fun k h₁ h₂ => ?_)
    by_contra hf
    exact hk ⟨k, h₁, h₂, by simpa using hf⟩

theorem length_le (h : Adds heap b s n b₁) : b₁.text.length ≤ b.text.length + s.length := by
  rcases h.all_or_short with h | h
  · exact Nat.le_of_eq (by rw [h, List.length_append])
  · omega

theorem text_iff (h : Adds heap b s n b₁) :
    b₁.text = b.text ++ s ↔ ∀ k, b.appends ≤ k → k < b.appends + n → heap k = true := by
  refine ⟨fun htext k h₁ h₂ => ?_, h.all⟩
  by_contra hf
  have := h.short ⟨k, h₁, h₂, by simpa using hf⟩
  rw [htext, List.length_append] at this
  omega

theorem trans (h₁ : Adds heap b s n b₁) (h₂ : Adds heap b₁ t m b₂) :
    Adds heap b (s ++ t) (n + m) b₂ where
  appends := by rw [h₂.appends, h₁.appends, Nat.add_assoc]
  all hall := by
    have := h₁.appends
    rw [h₂.all fun k hk hk' => hall k (by omega) (by omega),
      h₁.all fun k hk hk' => hall k hk (by omega), List.append_assoc]
  short := by
    rintro ⟨k, hk, hk', hf⟩
    have happ := h₁.appends
    have hle₁ := h₁.length_le
    have hle₂ := h₂.length_le
    rw [List.length_append]
    by_cases hkn : k < b.appends + n
    · have := h₁.short ⟨k, hk, hkn, hf⟩
      omega
    · have := h₂.short ⟨k, by omega, by omega, hf⟩
      omega

/-- One append of a nonempty text. A failure may also cost text that was there. -/
theorem one (hs : s ≠ []) (happ : b₁.appends = b.appends + 1)
    (htext : heap b.appends = true → b₁.text = b.text ++ s)
    (hfail : heap b.appends = false → b₁.text.length ≤ b.text.length) :
    Adds heap b s 1 b₁ where
  appends := happ
  all h := htext (h _ (Nat.le_refl _) (by omega))
  short := by
    rintro ⟨k, hk, hk', hf⟩
    have := List.length_pos_iff.mpr hs
    have hfail := hfail (by rw [← hf]; congr 1; omega)
    omega

theorem append (b : Builder α) (hs : s ≠ []) : Adds heap b s 1 (b.append heap s) :=
  .one hs rfl (fun h => by simp [Builder.append, h]) (fun h => by simp [Builder.append, h])

theorem plus (b : Builder α) (hs : s ≠ []) : Adds heap b s 1 (b.plus heap s) :=
  .one hs rfl (fun h => by simp [Builder.plus, h]) (fun h => by simp [Builder.plus, h])

theorem appendEach (cs : List α) (b : Builder α) :
    Adds heap b cs cs.length (b.appendEach heap cs) := by
  induction cs generalizing b with
  | nil => exact .refl b
  | cons c cs ih =>
    have hc : Adds heap b [c] 1 (b.append heap [c]) := .append b (List.cons_ne_nil c [])
    have := hc.trans (ih (b.append heap [c]))
    rw [List.singleton_append, Nat.add_comm] at this
    exact this

/-- A text built apart, by appends of its own, and then appended. -/
theorem nested {f : List α → List α} {c : Builder α} (h : Adds heap ⟨[], b.appends⟩ s n c)
    (hf : c.text.length < s.length → (f c.text).length < (f s).length) (hne : f s ≠ []) :
    Adds heap b (f s) (n + 1) ((Builder.mk b.text c.appends).append heap (f c.text)) where
  appends := by rw [Builder.append, h.appends, Nat.add_assoc]
  all hall := by
    have hc : c.appends = b.appends + n := h.appends
    have htext : c.text = s := h.all fun k hk hk' => hall k hk (by simp only at hk'; omega)
    rw [Builder.append, htext, hall c.appends (by omega) (by omega)]
    rfl
  short := by
    rintro ⟨k, hk, hk', hfail⟩
    have hc : c.appends = b.appends + n := h.appends
    have hpos := List.length_pos_iff.mpr hne
    by_cases hkn : k < b.appends + n
    · have := hf (by simpa using h.short ⟨k, hk, hkn, hfail⟩)
      simp only [Builder.append]
      split
      · rw [List.length_append]; omega
      · omega
    · have : heap c.appends = false := by rw [← hfail]; congr 1; omega
      simp only [Builder.append, this, Bool.false_eq_true, if_false]
      omega

end Adds

theorem appendEach_sublist (heap : Nat → Bool) (cs : List α) (b : Builder α) :
    ∃ t, t.Sublist cs ∧ (b.appendEach heap cs).text = b.text ++ t := by
  induction cs generalizing b with
  | nil => exact ⟨[], .slnil, (List.append_nil _).symm⟩
  | cons c cs ih =>
    obtain ⟨t, hsub, htext⟩ := ih (b.append heap [c])
    cases hh : heap b.appends with
    | true =>
      refine ⟨c :: t, hsub.cons_cons c, ?_⟩
      rw [Builder.appendEach, List.foldl_cons]
      rw [Builder.appendEach] at htext
      rw [htext]
      simp [Builder.append, hh]
    | false =>
      refine ⟨t, hsub.cons c, ?_⟩
      rw [Builder.appendEach, List.foldl_cons]
      rw [Builder.appendEach] at htext
      rw [htext]
      simp [Builder.append, hh]

end Builder

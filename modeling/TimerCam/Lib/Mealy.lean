import Mathlib.Tactic.Common

/-!
# Lib.Mealy

Machines that take one input after the other and answer each with one output.

* `run_inv`, `run_output` : an invariant of the steps holds after every run, and every output is
  that of a step taken where it holds.
* `run_map`               : where it fixes the output of a step, it fixes those of a run.
* `run_purge`             : inputs that leave the state alone can be taken out of a run.
-/

namespace Mealy

variable {σ ι ο : Type}

/-- The state after the inputs, and the outputs in order. -/
def run (step : σ → ι → σ × ο) : List ι → σ → σ × List ο
  | [], s => (s, [])
  | i :: is, s =>
    let r := run step is (step s i).1
    (r.1, (step s i).2 :: r.2)

variable (step : σ → ι → σ × ο)

theorem run_append (is js : List ι) (s : σ) :
    run step (is ++ js) s =
      ((run step js (run step is s).1).1,
        (run step is s).2 ++ (run step js (run step is s).1).2) := by
  induction is generalizing s with
  | nil => rfl
  | cons i is ih => rw [List.cons_append, run, ih]; rfl

theorem run_length (is : List ι) (s : σ) : (run step is s).2.length = is.length := by
  induction is generalizing s with
  | nil => rfl
  | cons i is ih => rw [run, List.length_cons, ih, List.length_cons]

theorem run_getElem? (pre : List ι) (i : ι) (post : List ι) (s : σ) :
    (run step (pre ++ i :: post) s).2[pre.length]? = some (step (run step pre s).1 i).2 := by
  rw [run_append, ← run_length step pre s, List.getElem?_append_right (Nat.le_refl _),
    Nat.sub_self]
  rfl

variable {step}

section Inv

variable (Inv : σ → Prop)

theorem run_inv (hstep : ∀ s i, Inv s → Inv (step s i).1) (is : List ι) :
    ∀ s, Inv s → Inv (run step is s).1 := by
  induction is with
  | nil => intro s hs; exact hs
  | cons i is ih => intro s hs; exact ih _ (hstep s i hs)

theorem run_output (hstep : ∀ s i, Inv s → Inv (step s i).1) {is : List ι} {x : ι × ο} :
    ∀ {s : σ}, Inv s → x ∈ is.zip (run step is s).2 → ∃ t, Inv t ∧ x.2 = (step t x.1).2 := by
  induction is with
  | nil => intro s _ hx; cases hx
  | cons i is ih =>
    intro s hs hx
    rw [run, List.zip_cons_cons, List.mem_cons] at hx
    rcases hx with rfl | hx
    · exact ⟨s, hs, rfl⟩
    · exact ih (hstep s i hs) hx

/-- Where the invariant fixes the output of each step, it fixes those of every run. -/
theorem run_map {P : ι → Prop} {f : ι → ο}
    (hstep : ∀ s i, Inv s → P i → Inv (step s i).1 ∧ (step s i).2 = f i) {is : List ι}
    (his : ∀ i ∈ is, P i) : ∀ {s : σ}, Inv s →
      Inv (run step is s).1 ∧ (run step is s).2 = is.map f := by
  induction is with
  | nil =>
    intro s hs
    exact ⟨hs, rfl⟩
  | cons i is ih =>
    intro s hs
    obtain ⟨hi, his⟩ := List.forall_mem_cons.mp his
    obtain ⟨hinv, hout⟩ := hstep s i hs hi
    obtain ⟨hinv', houts⟩ := ih his hinv
    exact ⟨hinv', by rw [run, hout, houts, List.map_cons]⟩

end Inv

/-- Two runs on the same inputs, side by side. -/
theorem mem_zip_zip {α β γ : Type} {x : α × β × γ} {as : List α} :
    ∀ {bs : List β} {cs : List γ}, x ∈ as.zip (bs.zip cs) →
      (x.1, x.2.1) ∈ as.zip bs ∧ (x.1, x.2.2) ∈ as.zip cs := by
  induction as with
  | nil => intro bs cs h; simp at h
  | cons a as ih =>
    intro bs cs h
    cases bs with
    | nil => simp at h
    | cons b bs =>
      cases cs with
      | nil => simp at h
      | cons c cs =>
        simp only [List.zip_cons_cons, List.mem_cons] at h ⊢
        rcases h with rfl | h
        · exact ⟨.inl rfl, .inl rfl⟩
        · exact ⟨.inr (ih h).1, .inr (ih h).2⟩

theorem run_purge {keep : ι → Bool} (hquiet : ∀ s i, keep i = false → (step s i).1 = s)
    (is : List ι) : ∀ s : σ,
    (run step (is.filter keep) s).1 = (run step is s).1 ∧
      (is.filter keep).zip (run step (is.filter keep) s).2 =
        (is.zip (run step is s).2).filter (keep ·.1) := by
  induction is with
  | nil => intro s; exact ⟨rfl, rfl⟩
  | cons i is ih =>
    intro s
    cases hi : keep i with
    | true =>
      obtain ⟨h₁, h₂⟩ := ih (step s i).1
      simp only [List.filter_cons, hi, if_true, run, List.zip_cons_cons]
      exact ⟨h₁, by rw [h₂]⟩
    | false =>
      obtain ⟨h₁, h₂⟩ := ih s
      have hs := hquiet s i hi
      simp only [List.filter_cons, hi, Bool.false_eq_true, if_false, run, List.zip_cons_cons, hs]
      exact ⟨h₁, h₂⟩

end Mealy

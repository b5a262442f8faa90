import Mathlib.Tactic.Common

/-!
# Lib.Socket

Writes on a socket that may take only a prefix of what it is given. Call number `k` takes
`accepts k` of its elements, or all of them if it is given less.

* `received`     : what the socket has taken, in order.
* `taken`        : how much that is, from the lengths of the calls.
* `Repeats`      : what is still taken after a call was cut short goes on where the socket stopped.
* `prefixes_iff` : what was taken is a prefix of a whole `w` at every moment exactly when each call
  goes on in `w` where those before it have stopped.
* `repeats_iff`  : for the whole that the calls write, only those after a cut matter.
-/

namespace Socket

variable {α : Type}

def received (accepts : Nat → Nat) : List (List α) → List α
  | [] => []
  | b :: bs => b.take (accepts 0) ++ received (fun k => accepts (k + 1)) bs

def taken (accepts : Nat → Nat) : List (List α) → Nat
  | [] => 0
  | b :: bs => min (accepts 0) b.length + taken (fun k => accepts (k + 1)) bs

/-- Call number `i` is taken in part only. -/
def Cut (accepts : Nat → Nat) (bs : List (List α)) (i : Nat) : Prop :=
  ∃ b, bs[i]? = some b ∧ accepts i < b.length

/-- Of call number `j` no more is taken than repeats what stands in `w` where the calls before it
have stopped. -/
def GoesOn (accepts : Nat → Nat) (w : List α) (bs : List (List α)) (j : Nat) : Prop :=
  ∀ b, bs[j]? = some b → b.take (accepts j) <+: w.drop (taken accepts (bs.take j))

/-- After a call that was cut short, each goes on where the socket has stopped. -/
def Repeats (accepts : Nat → Nat) (bs : List (List α)) : Prop :=
  ∀ i j, i < j → Cut accepts bs i → GoesOn accepts bs.flatten bs j

section

variable {accepts : Nat → Nat}

theorem received_length (bs : List (List α)) : (received accepts bs).length = taken accepts bs := by
  induction bs generalizing accepts with
  | nil => rfl
  | cons b bs ih => rw [received, taken, List.length_append, List.length_take, ih]

theorem received_append (as bs : List (List α)) : received accepts (as ++ bs) =
    received accepts as ++ received (fun k => accepts (as.length + k)) bs := by
  induction as generalizing accepts with
  | nil => simp [received]
  | cons a as ih =>
    rw [List.cons_append, received, ih, received, List.append_assoc]
    simp only [List.length_cons, Nat.add_right_comm _ 1]

theorem received_take_succ {bs : List (List α)} {j : Nat} {b : List α} (h : bs[j]? = some b) :
    received accepts (bs.take (j + 1)) = received accepts (bs.take j) ++ b.take (accepts j) := by
  obtain ⟨hj, -⟩ := List.getElem?_eq_some_iff.mp h
  have hlen : (bs.take j).length = j := List.length_take_of_le (Nat.le_of_lt hj)
  rw [List.take_add_one, h, received_append, hlen]
  simp [received]

/-- A prefix of `w` can be continued by what stands in `w` behind it. -/
theorem append_prefix_iff {r s w : List α} (hr : r <+: w) :
    r ++ s <+: w ↔ s <+: w.drop r.length := by
  obtain ⟨t, rfl⟩ := hr
  rw [List.drop_left, List.prefix_append_right_inj]

theorem prefixes_iff {w : List α} {bs : List (List α)} :
    (∀ m, received accepts (bs.take m) <+: w) ↔ ∀ j, GoesOn accepts w bs j := by
  constructor
  · intro h j b hb
    have hnext := h (j + 1)
    rw [received_take_succ hb, append_prefix_iff (h j), received_length] at hnext
    exact hnext
  · intro h m
    induction m with
    | zero => exact List.nil_prefix
    | succ m ih =>
      cases hb : bs[m]? with
      | none =>
        rw [List.take_add_one, hb]
        simpa using ih
      | some b =>
        rw [received_take_succ hb, append_prefix_iff ih, received_length]
        exact h m b hb

/-- Calls that were all taken whole leave the socket where they end. -/
theorem taken_uncut {bs : List (List α)} {j : Nat} (h : ∀ i < j, ¬ Cut accepts bs i) :
    taken accepts (bs.take j) = (bs.take j).flatten.length := by
  induction bs generalizing accepts j with
  | nil => rw [List.take_nil]; rfl
  | cons b bs ih =>
    cases j with
    | zero => rfl
    | succ j =>
      have hb : ¬ accepts 0 < b.length := fun hlt => h 0 (by omega) ⟨b, rfl, hlt⟩
      have hbs : ∀ i < j, ¬ Cut (fun k => accepts (k + 1)) bs i := by
        rintro i hi ⟨b', hb', hlt⟩
        exact h (i + 1) (by omega) ⟨b', hb', hlt⟩
      rw [List.take_succ_cons, taken, ih hbs, List.flatten_cons, List.length_append]
      omega

/-- Until a call is cut short, each goes on where those before it have stopped. -/
theorem goesOn_uncut {bs : List (List α)} {j : Nat} (h : ∀ i < j, ¬ Cut accepts bs i) :
    GoesOn accepts bs.flatten bs j := by
  intro b hb
  obtain ⟨hj, rfl⟩ := List.getElem?_eq_some_iff.mp hb
  have hsplit : bs.flatten = (bs.take j).flatten ++ (bs[j] ++ (bs.drop (j + 1)).flatten) := by
    rw [← List.flatten_cons, ← List.drop_eq_getElem_cons hj, ← List.flatten_append,
      List.take_append_drop]
  rw [taken_uncut h, hsplit, List.drop_left]
  exact (List.take_prefix _ _).trans (List.prefix_append _ _)

/-- What was taken is a prefix of what the calls write, at every moment, exactly when after a cut
each call goes on where the socket has stopped. -/
theorem repeats_iff {bs : List (List α)} :
    (∀ m, received accepts (bs.take m) <+: bs.flatten) ↔ Repeats accepts bs := by
  rw [prefixes_iff]
  constructor
  · exact fun h i j _ _ => h j
  · intro h j
    by_cases hcut : ∃ i < j, Cut accepts bs i
    · obtain ⟨i, hij, hi⟩ := hcut
      exact h i j hij hi
    · exact goesOn_uncut fun i hij hi => hcut ⟨i, hij, hi⟩

end

end Socket

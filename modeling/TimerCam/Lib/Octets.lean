import Mathlib.Data.Nat.Digits.Defs

/-!
# Lib.Octets

Octet strings as a wire or a C string function sees them.

* `text`                    : the UTF-8 bytes of a literal.
* `decimal`, `readDecimal`  : unsigned decimal numerals, written and read back.
* `pad`                     : zero-padded numerals of a fixed width. They sort as the numbers
  they write (`pad_lt`), also inside longer strings (`append_lt`).
-/

namespace Octets

abbrev Bytes := List UInt8

def text (s : String) : Bytes := s.toList.flatMap String.utf8EncodeChar

/-- The end of a line on the wire. -/
def crlf : Bytes := [13, 10]

/-! ## Decimal numerals -/

/-- The digit `d`, for `d < 10`. -/
def digit (d : Nat) : UInt8 := UInt8.ofNat (48 + d)

def digit? (c : UInt8) : Option Nat :=
  if 48 ≤ c.toNat ∧ c.toNat ≤ 57 then some (c.toNat - 48) else none

theorem digit_toNat {d : Nat} (h : d < 10) : (digit d).toNat = 48 + d := by
  simp only [digit, UInt8.toNat_ofNat']
  omega

theorem digit?_digit {d : Nat} (h : d < 10) : digit? (digit d) = some d := by
  have := digit_toNat h
  simp only [digit?, this]
  rw [if_pos (by omega)]
  congr 1
  omega

/-- `n` in decimal, without leading zeros. -/
def decimal (n : Nat) : Bytes :=
  if n = 0 then [digit 0] else (Nat.digits 10 n).reverse.map digit

/-- The number a nonempty string of decimal digits writes. -/
def readDecimal (s : Bytes) : Option Nat :=
  if s = [] then none else (s.mapM digit?).map fun ds => Nat.ofDigits 10 ds.reverse

theorem mapM_digit? : ∀ ds : List Nat, (∀ d ∈ ds, d < 10) → (ds.map digit).mapM digit? = some ds := by
  intro ds
  induction ds with
  | nil => intro _; rfl
  | cons d ds ih =>
    intro h
    have hd : d < 10 := h d (by simp)
    have hds := ih fun e he => h e (by simp [he])
    simp [List.mapM_cons, digit?_digit hd, hds]

theorem readDecimal_decimal (n : Nat) : readDecimal (decimal n) = some n := by
  by_cases hn : n = 0
  · subst hn; rfl
  · have hne : Nat.digits 10 n ≠ [] := Nat.digits_ne_nil_iff_ne_zero.mpr hn
    have hlt : ∀ d ∈ (Nat.digits 10 n).reverse, d < 10 := by
      intro d hd
      exact Nat.digits_lt_base (by omega) (List.mem_reverse.mp hd)
    simp only [decimal, if_neg hn, readDecimal]
    rw [if_neg (by simpa using hne), mapM_digit? _ hlt]
    simp [Nat.ofDigits_digits]

theorem mem_decimal {n : Nat} {c : UInt8} (h : c ∈ decimal n) : ∃ d, d < 10 ∧ c = digit d := by
  by_cases hn : n = 0
  · subst hn
    simp only [decimal, if_true, List.mem_singleton] at h
    exact ⟨0, by omega, h⟩
  · simp only [decimal, if_neg hn, List.mem_map, List.mem_reverse] at h
    obtain ⟨d, hd, rfl⟩ := h
    exact ⟨d, Nat.digits_lt_base (by omega) hd, rfl⟩

/-! ## Fixed width -/

/-- The last `w` decimal digits of `n`. -/
def pad : Nat → Nat → Bytes
  | 0, _ => []
  | w + 1, n => digit (n / 10 ^ w % 10) :: pad w n

@[simp] theorem pad_length (w n : Nat) : (pad w n).length = w := by
  induction w with
  | zero => rfl
  | succ w ih => simp [pad, ih]

theorem mem_pad {w n : Nat} {c : UInt8} (h : c ∈ pad w n) : ∃ d, d < 10 ∧ c = digit d := by
  induction w with
  | zero => simp [pad] at h
  | succ w ih =>
    simp only [pad, List.mem_cons] at h
    rcases h with rfl | h
    · exact ⟨_, Nat.mod_lt _ (by omega), rfl⟩
    · exact ih h

theorem pad_mod (w n : Nat) : ∀ k, w ≤ k → pad w (n % 10 ^ k) = pad w n := by
  induction w with
  | zero => intro _ _; rfl
  | succ w ih =>
    intro k hk
    simp only [pad, ih k (by omega)]
    have h : n % 10 ^ k / 10 ^ w % 10 = n / 10 ^ w % 10 := by
      obtain ⟨j, rfl⟩ : ∃ j, k = w + (j + 1) := ⟨k - w - 1, by omega⟩
      rw [Nat.pow_add, Nat.mod_mul_right_div_self, Nat.pow_succ']
      exact Nat.mod_mul_right_mod _ _ _
    rw [h]

theorem digit_lt {d e : Nat} (he : e < 10) (h : d < e) : digit d < digit e := by
  rw [UInt8.lt_iff_toNat_lt, digit_toNat he, digit_toNat (by omega)]
  omega

theorem pad_lt {w : Nat} : ∀ {n m : Nat}, n < m → m < 10 ^ w → pad w n < pad w m := by
  induction w with
  | zero => intro n m h hm; simp at hm; omega
  | succ w ih =>
    intro n m h hm
    have hp : 0 < 10 ^ w := Nat.pow_pos (by omega)
    have hm' : m / 10 ^ w < 10 := by
      rw [Nat.div_lt_iff_lt_mul hp, Nat.mul_comm, ← Nat.pow_succ]; exact hm
    have hle : n / 10 ^ w ≤ m / 10 ^ w := Nat.div_le_div_right (by omega)
    simp only [pad, Nat.mod_eq_of_lt hm', Nat.mod_eq_of_lt (show n / 10 ^ w < 10 by omega)]
    rw [List.cons_lt_cons_iff]
    by_cases heq : n / 10 ^ w = m / 10 ^ w
    · -- equal leading digits: the order is that of the remainders
      right
      refine ⟨by rw [heq], ?_⟩
      rw [← pad_mod w n w (Nat.le_refl w), ← pad_mod w m w (Nat.le_refl w)]
      refine ih ?_ (Nat.mod_lt _ hp)
      have hn := Nat.div_add_mod n (10 ^ w)
      have hm := Nat.div_add_mod m (10 ^ w)
      rw [heq] at hn
      omega
    · left
      exact digit_lt hm' (by omega)

theorem decimal_eq_pad {n : Nat} (h₁ : 1000 ≤ n) (h₂ : n < 10000) : decimal n = pad 4 n := by
  have hd : Nat.digits 10 n = [n % 10, n / 10 % 10, n / 100 % 10, n / 1000] := by
    rw [Nat.digits_def' (by omega) (by omega), Nat.digits_def' (by omega) (by omega),
      Nat.digits_def' (by omega) (by omega), Nat.digits_of_lt _ _ (by omega) (by omega)]
    simp [Nat.div_div_eq_div_mul]
  rw [decimal, if_neg (by omega), hd]
  simp only [List.reverse_cons, List.reverse_nil, List.nil_append, List.cons_append, List.map_cons,
    List.map_nil, pad]
  rw [Nat.mod_eq_of_lt (show n / 10 ^ 3 < 10 by omega)]
  simp

/-! ## Order of longer strings -/

theorem append_lt {a b : Bytes} (hlen : a.length = b.length) (h : a < b) (x y : Bytes) :
    a ++ x < b ++ y := by
  induction a generalizing b with
  | nil =>
    cases b with
    | nil => simp at h
    | cons _ _ => simp at hlen
  | cons c a ih =>
    cases b with
    | nil => simp at hlen
    | cons d b =>
      rw [List.cons_lt_cons_iff] at h
      rw [List.cons_append, List.cons_append, List.cons_lt_cons_iff]
      rcases h with h | ⟨rfl, h⟩
      · exact .inl h
      · exact .inr ⟨rfl, ih (by simpa using hlen) h⟩

theorem append_lt_left (a : Bytes) {x y : Bytes} (h : x < y) : a ++ x < a ++ y := by
  induction a with
  | nil => exact h
  | cons c a ih =>
    rw [List.cons_append, List.cons_append, List.cons_lt_cons_iff]
    exact .inr ⟨rfl, ih⟩

end Octets

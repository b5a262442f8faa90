import TimerCam.Lib.Octets
import Mathlib.Tactic.Common

/-!
# Lib.Base64

The base64 encoding of RFC 4648 §4, with the padding of §3.2 and a strict decoder: no character
outside the alphabet, padding only in the last group, and zero bits under the padding (§3.5).

* `encode`, `decode`  : three octets to four characters and back.
* `decode_encode`     : what is encoded is decoded.
* `encode_decode`     : what is decoded is the encoding of what it stands for, so that the canonical
  strings are those that the decoder accepts (`canonical_iff`).
* `encode_append`     : encoding in pieces is encoding the whole when every piece but the last is
  a multiple of three octets long.
-/

namespace Base64

open Octets

/-- RFC 4648 table 1, by value. -/
def alphabet : Bytes :=
  text "ABCDEFGHIJKLMNOPQRSTUVWXYZabcdefghijklmnopqrstuvwxyz0123456789+/"

def padding : UInt8 := 61

def char (v : Nat) : UInt8 := alphabet.getD v 0

def value? (c : UInt8) : Option Nat := alphabet.idxOf? c

theorem value?_char : ∀ v, v < 64 → value? (char v) = some v := by decide +kernel

theorem alphabet_length : alphabet.length = 64 := rfl

theorem char_mem {v : Nat} (h : v < 64) : char v ∈ alphabet := by
  have hlt : v < alphabet.length := alphabet_length ▸ h
  rw [char, List.getD_eq_getElem?_getD, List.getElem?_eq_getElem hlt]
  exact List.getElem_mem hlt

theorem ne_padding {c : UInt8} (h : c ∈ alphabet) : c ≠ padding := by
  have hpad : padding ∉ alphabet := by decide
  intro he
  exact hpad (he ▸ h)

theorem char_ne_padding {v : Nat} (h : v < 64) : char v ≠ padding := ne_padding (char_mem h)

/-! ## Encoding -/

def encodeGroup (a b c : UInt8) : Bytes :=
  [char (a.toNat / 4), char (a.toNat % 4 * 16 + b.toNat / 16),
    char (b.toNat % 16 * 4 + c.toNat / 64), char (c.toNat % 64)]

def encode : Bytes → Bytes
  | [] => []
  | [a] => [char (a.toNat / 4), char (a.toNat % 4 * 16), padding, padding]
  | [a, b] =>
    [char (a.toNat / 4), char (a.toNat % 4 * 16 + b.toNat / 16), char (b.toNat % 16 * 4), padding]
  | a :: b :: c :: rest => encodeGroup a b c ++ encode rest

theorem encode_singleton (a : UInt8) :
    encode [a] = (encodeGroup a 0 0).take 2 ++ List.replicate 2 padding := rfl

theorem encode_pair (a b : UInt8) :
    encode [a, b] = (encodeGroup a b 0).take 3 ++ List.replicate 1 padding := rfl

theorem mem_encodeGroup {a b c x : UInt8} (h : x ∈ encodeGroup a b c) : x ∈ alphabet := by
  have ha := a.toNat_lt
  have hb := b.toNat_lt
  have hc := c.toNat_lt
  simp only [encodeGroup, List.mem_cons, List.not_mem_nil, or_false] at h
  rcases h with rfl | rfl | rfl | rfl
  · exact char_mem (by omega)
  · exact char_mem (by omega)
  · exact char_mem (by omega)
  · exact char_mem (by omega)

theorem encode_length (s : Bytes) : (encode s).length = 4 * ((s.length + 2) / 3) := by
  induction s using encode.induct with
  | case1 => rfl
  | case2 a => simp [encode]
  | case3 a b => simp [encode]
  | case4 a b c rest ih =>
    simp only [encode, encodeGroup, List.cons_append, List.nil_append, List.length_cons, ih]
    omega

theorem encode_eq_nil {s : Bytes} : encode s = [] ↔ s = [] := by
  constructor
  · intro h
    have := encode_length s
    rw [h, List.length_nil] at this
    exact List.length_eq_zero_iff.mp (by omega)
  · rintro rfl; rfl

theorem encode_append {a : Bytes} (h : a.length % 3 = 0) (b : Bytes) :
    encode (a ++ b) = encode a ++ encode b := by
  induction a using encode.induct with
  | case1 => rfl
  | case2 x => simp at h
  | case3 x y => simp at h
  | case4 x y z rest ih =>
    simp only [List.cons_append, encode, List.append_assoc]
    rw [ih (by simp only [List.length_cons] at h; omega)]

/-- Cut `s` into slices of `c` octets, a multiple of 3: the first is encoded on its own. -/
theorem encode_slice {c : Nat} (h : 3 ∣ c) (s : Bytes) :
    encode s = encode (s.take c) ++ encode (s.drop (s.take c).length) := by
  by_cases hc : c ≤ s.length
  · rw [List.length_take_of_le hc, ← encode_append (by rw [List.length_take_of_le hc]; omega),
      List.take_append_drop]
  · rw [List.take_of_length_le (by omega), List.drop_length]
    exact (List.append_nil _).symm

theorem mem_encode {s : Bytes} {c : UInt8} (h : c ∈ encode s) : c ∈ alphabet ∨ c = padding := by
  induction s using encode.induct with
  | case1 => cases h
  | case2 a =>
    rw [encode_singleton, List.mem_append] at h
    rcases h with h | h
    · exact .inl (mem_encodeGroup (List.mem_of_mem_take h))
    · exact .inr (List.eq_of_mem_replicate h)
  | case3 a b =>
    rw [encode_pair, List.mem_append] at h
    rcases h with h | h
    · exact .inl (mem_encodeGroup (List.mem_of_mem_take h))
    · exact .inr (List.eq_of_mem_replicate h)
  | case4 a b c' rest ih =>
    rw [encode, List.mem_append] at h
    rcases h with h | h
    · exact .inl (mem_encodeGroup h)
    · exact ih h

/-! ## Decoding -/

def decodeGroup (c₀ c₁ c₂ c₃ : UInt8) : Option Bytes :=
  match value? c₀, value? c₁, value? c₂, value? c₃ with
  | some v₀, some v₁, some v₂, some v₃ =>
    some [UInt8.ofNat (v₀ * 4 + v₁ / 16), UInt8.ofNat (v₁ % 16 * 16 + v₂ / 4),
      UInt8.ofNat (v₂ % 4 * 64 + v₃)]
  | _, _, _, _ => none

/-- The last group, which may end in one or two padding characters. -/
def decodeLast (c₀ c₁ c₂ c₃ : UInt8) : Option Bytes :=
  if c₃ ≠ padding then decodeGroup c₀ c₁ c₂ c₃
  else if c₂ ≠ padding then
    match value? c₀, value? c₁, value? c₂ with
    | some v₀, some v₁, some v₂ =>
      if v₂ % 4 = 0 then
        some [UInt8.ofNat (v₀ * 4 + v₁ / 16), UInt8.ofNat (v₁ % 16 * 16 + v₂ / 4)]
      else none
    | _, _, _ => none
  else
    match value? c₀, value? c₁ with
    | some v₀, some v₁ => if v₁ % 16 = 0 then some [UInt8.ofNat (v₀ * 4 + v₁ / 16)] else none
    | _, _ => none

def decode : Bytes → Option Bytes
  | [] => some []
  | c₀ :: c₁ :: c₂ :: c₃ :: rest =>
    if rest = [] then decodeLast c₀ c₁ c₂ c₃
    else
      match decodeGroup c₀ c₁ c₂ c₃, decode rest with
      | some x, some y => some (x ++ y)
      | _, _ => none
  | _ => none

theorem ofNat_eq {n : Nat} {a : UInt8} (h : n = a.toNat) : UInt8.ofNat n = a := by
  rw [h, UInt8.ofNat_toNat]

theorem decodeGroup_encodeGroup (a b c : UInt8) :
    decodeGroup (char (a.toNat / 4)) (char (a.toNat % 4 * 16 + b.toNat / 16))
      (char (b.toNat % 16 * 4 + c.toNat / 64)) (char (c.toNat % 64)) = some [a, b, c] := by
  have ha := a.toNat_lt
  have hb := b.toNat_lt
  have hc := c.toNat_lt
  simp only [decodeGroup, value?_char (a.toNat / 4) (by omega),
    value?_char (a.toNat % 4 * 16 + b.toNat / 16) (by omega),
    value?_char (b.toNat % 16 * 4 + c.toNat / 64) (by omega), value?_char (c.toNat % 64) (by omega)]
  rw [ofNat_eq (a := a) (by omega), ofNat_eq (a := b) (by omega), ofNat_eq (a := c) (by omega)]

theorem decode_encode (s : Bytes) : decode (encode s) = some s := by
  induction s using encode.induct with
  | case1 => rfl
  | case2 a =>
    have ha := a.toNat_lt
    simp only [encode, decode, if_true, decodeLast, ne_eq, not_true_eq_false, if_false,
      value?_char (a.toNat / 4) (by omega), value?_char (a.toNat % 4 * 16) (by omega)]
    rw [if_pos (by omega), ofNat_eq (a := a) (by omega)]
  | case3 a b =>
    have ha := a.toNat_lt
    have hb := b.toNat_lt
    have h₂ : char (b.toNat % 16 * 4) ≠ padding := char_ne_padding (by omega)
    simp only [encode, decode, if_true, decodeLast, ne_eq, not_true_eq_false, if_false, h₂,
      not_false_eq_true, value?_char (a.toNat / 4) (by omega),
      value?_char (a.toNat % 4 * 16 + b.toNat / 16) (by omega),
      value?_char (b.toNat % 16 * 4) (by omega)]
    rw [if_pos (by omega), ofNat_eq (a := a) (by omega), ofNat_eq (a := b) (by omega)]
  | case4 a b c rest ih =>
    have hc := c.toNat_lt
    simp only [encode, encodeGroup, List.cons_append, List.nil_append, decode, encode_eq_nil]
    by_cases hr : rest = []
    · have h₃ : char (c.toNat % 64) ≠ padding := char_ne_padding (by omega)
      rw [if_pos hr, decodeLast, if_pos h₃, decodeGroup_encodeGroup, hr]
    · rw [if_neg hr, decodeGroup_encodeGroup, ih]
      rfl

/-! ## Canonical strings -/

theorem value?_some {c : UInt8} {v : Nat} (h : value? c = some v) : v < 64 ∧ char v = c := by
  obtain ⟨hlt, hget, -⟩ := List.idxOf?_eq_some_iff.mp h
  refine ⟨alphabet_length ▸ hlt, ?_⟩
  rw [char, List.getD_eq_getElem?_getD, List.getElem?_eq_getElem hlt, hget]
  rfl

/-- Groups of four characters, of which the last may end in padding, and then over zero bits. -/
inductive Canonical : Bytes → Prop where
  | nil : Canonical []
  | one {v₀ v₁ : Nat} : v₀ < 64 → v₁ < 64 → v₁ % 16 = 0 →
      Canonical [char v₀, char v₁, padding, padding]
  | two {v₀ v₁ v₂ : Nat} : v₀ < 64 → v₁ < 64 → v₂ < 64 → v₂ % 4 = 0 →
      Canonical [char v₀, char v₁, char v₂, padding]
  | group {v₀ v₁ v₂ v₃ : Nat} {rest : Bytes} : v₀ < 64 → v₁ < 64 → v₂ < 64 → v₃ < 64 →
      Canonical rest → Canonical (char v₀ :: char v₁ :: char v₂ :: char v₃ :: rest)

theorem encode_canonical (s : Bytes) : Canonical (encode s) := by
  induction s using encode.induct with
  | case1 => exact .nil
  | case2 a =>
    have ha := a.toNat_lt
    exact .one (by omega) (by omega) (by omega)
  | case3 a b =>
    have ha := a.toNat_lt
    have hb := b.toNat_lt
    exact .two (by omega) (by omega) (by omega) (by omega)
  | case4 a b c rest ih =>
    have ha := a.toNat_lt
    have hb := b.toNat_lt
    have hc := c.toNat_lt
    exact .group (by omega) (by omega) (by omega) (by omega) ih

theorem toNat_octet {n : Nat} (h : n < 256) : (UInt8.ofNat n).toNat = n :=
  UInt8.toNat_ofNat_of_lt' h

theorem encode_one {v₀ v₁ : Nat} (h₀ : v₀ < 64) (h₁ : v₁ < 64) (hz : v₁ % 16 = 0) :
    encode [UInt8.ofNat (v₀ * 4 + v₁ / 16)] = [char v₀, char v₁, padding, padding] := by
  have ha : (UInt8.ofNat (v₀ * 4 + v₁ / 16)).toNat = v₀ * 4 + v₁ / 16 :=
    toNat_octet (by omega)
  have e₀ : (v₀ * 4 + v₁ / 16) / 4 = v₀ := by omega
  have e₁ : (v₀ * 4 + v₁ / 16) % 4 * 16 = v₁ := by omega
  simp only [encode, ha, e₀, e₁]

theorem encode_two {v₀ v₁ v₂ : Nat} (h₀ : v₀ < 64) (h₁ : v₁ < 64) (h₂ : v₂ < 64)
    (hz : v₂ % 4 = 0) :
    encode [UInt8.ofNat (v₀ * 4 + v₁ / 16), UInt8.ofNat (v₁ % 16 * 16 + v₂ / 4)] =
      [char v₀, char v₁, char v₂, padding] := by
  have ha : (UInt8.ofNat (v₀ * 4 + v₁ / 16)).toNat = v₀ * 4 + v₁ / 16 :=
    toNat_octet (by omega)
  have hb : (UInt8.ofNat (v₁ % 16 * 16 + v₂ / 4)).toNat = v₁ % 16 * 16 + v₂ / 4 :=
    toNat_octet (by omega)
  have e₀ : (v₀ * 4 + v₁ / 16) / 4 = v₀ := by omega
  have e₁ : (v₀ * 4 + v₁ / 16) % 4 * 16 + (v₁ % 16 * 16 + v₂ / 4) / 16 = v₁ := by omega
  have e₂ : (v₁ % 16 * 16 + v₂ / 4) % 16 * 4 = v₂ := by omega
  simp only [encode, ha, hb, e₀, e₁, e₂]

theorem encodeGroup_values {v₀ v₁ v₂ v₃ : Nat} (h₀ : v₀ < 64) (h₁ : v₁ < 64) (h₂ : v₂ < 64)
    (h₃ : v₃ < 64) :
    encodeGroup (UInt8.ofNat (v₀ * 4 + v₁ / 16)) (UInt8.ofNat (v₁ % 16 * 16 + v₂ / 4))
      (UInt8.ofNat (v₂ % 4 * 64 + v₃)) = [char v₀, char v₁, char v₂, char v₃] := by
  have ha : (UInt8.ofNat (v₀ * 4 + v₁ / 16)).toNat = v₀ * 4 + v₁ / 16 :=
    toNat_octet (by omega)
  have hb : (UInt8.ofNat (v₁ % 16 * 16 + v₂ / 4)).toNat = v₁ % 16 * 16 + v₂ / 4 :=
    toNat_octet (by omega)
  have hc : (UInt8.ofNat (v₂ % 4 * 64 + v₃)).toNat = v₂ % 4 * 64 + v₃ :=
    toNat_octet (by omega)
  have e₀ : (v₀ * 4 + v₁ / 16) / 4 = v₀ := by omega
  have e₁ : (v₀ * 4 + v₁ / 16) % 4 * 16 + (v₁ % 16 * 16 + v₂ / 4) / 16 = v₁ := by omega
  have e₂ : (v₁ % 16 * 16 + v₂ / 4) % 16 * 4 + (v₂ % 4 * 64 + v₃) / 64 = v₂ := by omega
  have e₃ : (v₂ % 4 * 64 + v₃) % 64 = v₃ := by omega
  simp only [encodeGroup, ha, hb, hc, e₀, e₁, e₂, e₃]

theorem Canonical.exists_encode {s : Bytes} (h : Canonical s) : ∃ x, encode x = s := by
  induction h with
  | nil => exact ⟨[], rfl⟩
  | one h₀ h₁ hz => exact ⟨_, encode_one h₀ h₁ hz⟩
  | two h₀ h₁ h₂ hz => exact ⟨_, encode_two h₀ h₁ h₂ hz⟩
  | @group v₀ v₁ v₂ v₃ rest h₀ h₁ h₂ h₃ _ ih =>
    obtain ⟨x, rfl⟩ := ih
    refine ⟨UInt8.ofNat (v₀ * 4 + v₁ / 16) :: UInt8.ofNat (v₁ % 16 * 16 + v₂ / 4) ::
      UInt8.ofNat (v₂ % 4 * 64 + v₃) :: x, ?_⟩
    rw [encode, encodeGroup_values h₀ h₁ h₂ h₃]
    rfl

theorem decodeGroup_some {c₀ c₁ c₂ c₃ : UInt8} {x : Bytes} (h : decodeGroup c₀ c₁ c₂ c₃ = some x) :
    x.length % 3 = 0 ∧ encode x = [c₀, c₁, c₂, c₃] := by
  unfold decodeGroup at h
  split at h
  · rename_i h₀ h₁ h₂ h₃
    obtain ⟨l₀, rfl⟩ := value?_some h₀
    obtain ⟨l₁, rfl⟩ := value?_some h₁
    obtain ⟨l₂, rfl⟩ := value?_some h₂
    obtain ⟨l₃, rfl⟩ := value?_some h₃
    cases h
    exact ⟨by simp, (List.append_nil _).trans (encodeGroup_values l₀ l₁ l₂ l₃)⟩
  · cases h

theorem decodeLast_some {c₀ c₁ c₂ c₃ : UInt8} {x : Bytes} (h : decodeLast c₀ c₁ c₂ c₃ = some x) :
    encode x = [c₀, c₁, c₂, c₃] := by
  unfold decodeLast at h
  by_cases h₃ : c₃ ≠ padding
  · rw [if_pos h₃] at h
    exact (decodeGroup_some h).2
  · rw [if_neg h₃] at h
    obtain rfl := not_not.mp h₃
    by_cases h₂ : c₂ ≠ padding
    · rw [if_pos h₂] at h
      split at h
      · rename_i e₀ e₁ e₂
        obtain ⟨l₀, rfl⟩ := value?_some e₀
        obtain ⟨l₁, rfl⟩ := value?_some e₁
        obtain ⟨l₂, rfl⟩ := value?_some e₂
        split at h
        · rename_i hz
          cases h
          exact encode_two l₀ l₁ l₂ hz
        · cases h
      · cases h
    · rw [if_neg h₂] at h
      obtain rfl := not_not.mp h₂
      split at h
      · rename_i e₀ e₁
        obtain ⟨l₀, rfl⟩ := value?_some e₀
        obtain ⟨l₁, rfl⟩ := value?_some e₁
        split at h
        · rename_i hz
          cases h
          exact encode_one l₀ l₁ hz
        · cases h
      · cases h

/-- The decoder accepts nothing but encodings. -/
theorem encode_decode : ∀ {s x : Bytes}, decode s = some x → encode x = s
  | [], x, h => by
    cases h
    rfl
  | c₀ :: c₁ :: c₂ :: c₃ :: rest, x, h => by
    rw [decode] at h
    split at h
    · rename_i hrest
      rw [hrest, decodeLast_some h]
    · cases hg : decodeGroup c₀ c₁ c₂ c₃ with
      | none => simp [hg] at h
      | some y =>
        cases hr : decode rest with
        | none => simp [hg, hr] at h
        | some z =>
          simp only [hg, hr, Option.some.injEq] at h
          obtain ⟨hlen, hy⟩ := decodeGroup_some hg
          have hz := encode_decode hr
          rw [← h, encode_append hlen, hy, hz]
          rfl
  | [_], _, h => by cases h
  | [_, _], _, h => by cases h
  | [_, _, _], _, h => by cases h

theorem canonical_iff {s : Bytes} : Canonical s ↔ ∃ x, decode s = some x := by
  constructor
  · intro h
    obtain ⟨x, rfl⟩ := h.exists_encode
    exact ⟨x, decode_encode x⟩
  · rintro ⟨x, h⟩
    rw [← encode_decode h]
    exact encode_canonical x

/-- Four characters stand for three octets at most. -/
theorem decode_length {s x : Bytes} (h : decode s = some x) : 4 * x.length ≤ 3 * s.length := by
  rw [← encode_decode h, encode_length]
  omega

/-- Padding stands at the end only, as much as completes the last group. -/
theorem encode_padding (s : Bytes) :
    ∃ body, encode s = body ++ List.replicate ((3 - s.length % 3) % 3) padding ∧
      padding ∉ body := by
  induction s using encode.induct with
  | case1 => exact ⟨[], rfl, List.not_mem_nil⟩
  | case2 a =>
    refine ⟨(encodeGroup a 0 0).take 2, encode_singleton a, fun h => ?_⟩
    exact ne_padding (mem_encodeGroup (List.mem_of_mem_take h)) rfl
  | case3 a b =>
    refine ⟨(encodeGroup a b 0).take 3, encode_pair a b, fun h => ?_⟩
    exact ne_padding (mem_encodeGroup (List.mem_of_mem_take h)) rfl
  | case4 a b c rest ih =>
    obtain ⟨body, hbody, hne⟩ := ih
    refine ⟨encodeGroup a b c ++ body, ?_, fun h => ?_⟩
    · have hlen : (a :: b :: c :: rest).length % 3 = rest.length % 3 := by
        simp only [List.length_cons]
        omega
      rw [encode, hbody, hlen, List.append_assoc]
    · rcases List.mem_append.mp h with h | h
      · exact ne_padding (mem_encodeGroup h) rfl
      · exact hne h

end Base64

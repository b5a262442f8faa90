import TimerCam.Lib.Octets
import Mathlib.Data.List.TakeWhile

/-!
# Lib.UrlForm

Reading `application/x-www-form-urlencoded`: fields between `&`, each split at its first `=`, then
`+` read as a space and `%XX` decoded in both parts.

* `unescape_cons`, `unescape_percent` : one step of percent-decoding.
* `parse_intercalate`                 : joining fields with `&` and reading them back.
-/

namespace UrlForm

open Octets

def amp : UInt8 := 38
def equals : UInt8 := 61
def plus : UInt8 := 43
def percent : UInt8 := 37
def space : UInt8 := 32

def hex? (c : UInt8) : Option Nat :=
  if 48 ≤ c.toNat ∧ c.toNat ≤ 57 then some (c.toNat - 48)
  else if 65 ≤ c.toNat ∧ c.toNat ≤ 70 then some (c.toNat - 55)
  else if 97 ≤ c.toNat ∧ c.toNat ≤ 102 then some (c.toNat - 87)
  else none

/-- Percent-decoding. A `%` without two hexadecimal digits after it stands for itself. -/
def unescape : Bytes → Bytes
  | [] => []
  | [a] => [a]
  | [a, b] => [a, b]
  | c :: h :: l :: rest =>
    if c = percent then
      match hex? h, hex? l with
      | some x, some y => UInt8.ofNat (16 * x + y) :: unescape rest
      | _, _ => c :: unescape (h :: l :: rest)
    else c :: unescape (h :: l :: rest)

theorem unescape_cons {c : UInt8} (h : c ≠ percent) (s : Bytes) :
    unescape (c :: s) = c :: unescape s := by
  match s with
  | [] => simp [unescape]
  | [_] => simp [unescape]
  | _ :: _ :: _ => rw [unescape, if_neg h]

theorem unescape_percent {h l : UInt8} {x y : Nat} (hx : hex? h = some x) (hy : hex? l = some y)
    (s : Bytes) :
    unescape (percent :: h :: l :: s) = UInt8.ofNat (16 * x + y) :: unescape s := by
  rw [unescape, if_pos rfl, hx, hy]

def plusToSpace (s : Bytes) : Bytes := s.map fun c => if c = plus then space else c

def component (s : Bytes) : Bytes := unescape (plusToSpace s)

/-- A field split at its first `=`. -/
def field (s : Bytes) : Bytes × Bytes :=
  (component (s.takeWhile (· ≠ equals)), component ((s.dropWhile (· ≠ equals)).drop 1))

def parse (s : Bytes) : List (Bytes × Bytes) :=
  ((s.splitOn amp).filter (· ≠ [])).map field

theorem plusToSpace_eq {s : Bytes} (h : plus ∉ s) : plusToSpace s = s := by
  induction s with
  | nil => rfl
  | cons c s ih =>
    simp only [List.mem_cons, not_or] at h
    rw [plusToSpace, List.map_cons, if_neg (Ne.symm h.1)]
    congr 1
    exact ih h.2

theorem unescape_eq {s : Bytes} (h : percent ∉ s) : unescape s = s := by
  induction s with
  | nil => rfl
  | cons c s ih =>
    simp only [List.mem_cons, not_or] at h
    rw [unescape_cons (Ne.symm h.1), ih h.2]

theorem component_eq {s : Bytes} (h₁ : plus ∉ s) (h₂ : percent ∉ s) : component s = s := by
  rw [component, plusToSpace_eq h₁, unescape_eq h₂]

theorem field_append {n : Bytes} (hn : equals ∉ n) (v : Bytes) :
    field (n ++ equals :: v) = (component n, component v) := by
  have hp : ∀ c ∈ n, decide (c ≠ equals) = true := by
    intro c hc
    simp only [ne_eq, decide_not, Bool.not_eq_true', decide_eq_false_iff_not]
    rintro rfl
    exact hn hc
  rw [field, List.takeWhile_append_of_pos hp, List.dropWhile_append_of_pos hp]
  simp

/-- Fields joined with `&` are read back in order. -/
theorem parse_intercalate {fs : List (Bytes × Bytes)} (hne : fs ≠ [])
    (h : ∀ f ∈ fs, amp ∉ f.1 ∧ equals ∉ f.1 ∧ amp ∉ f.2) :
    parse ([amp].intercalate (fs.map fun f => f.1 ++ equals :: f.2)) =
      fs.map fun f => (component f.1, component f.2) := by
  have hamp : ∀ l ∈ fs.map fun f => f.1 ++ equals :: f.2, amp ∉ l := by
    intro l hl
    obtain ⟨f, hf, rfl⟩ := List.mem_map.mp hl
    obtain ⟨h₁, -, h₃⟩ := h f hf
    simp only [List.mem_append, List.mem_cons, not_or]
    exact ⟨h₁, by decide, h₃⟩
  have hfilter : (fs.map fun f => f.1 ++ equals :: f.2).filter (· ≠ []) =
      fs.map fun f => f.1 ++ equals :: f.2 := by
    rw [List.filter_eq_self]
    intro l hl
    obtain ⟨f, _, rfl⟩ := List.mem_map.mp hl
    simp
  rw [parse, List.splitOn_intercalate amp hamp (by simpa using hne), hfilter, List.map_map]
  apply List.map_congr_left
  intro f hf
  exact field_append (h f hf).2.1 f.2

end UrlForm

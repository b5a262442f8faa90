import TimerCam.Lib.Octets
import Mathlib.Tactic.Common

/-!
# Lib.Multipart

A reader of `multipart` streams that is driven by lengths: after a delimiter line and the part's
header block come exactly `Content-Length` octets of body and a CRLF. It never searches a body for
the delimiter, so a body may contain anything.

* `line?`, `headerBlock?`, `part?`, `parts?` : the reader, from lines to whole streams.
* `headerBlock?_lines`                       : a block of header lines is read back.
* `stream?_flatMap`                          : a stream of parts is read back, body by body.
-/

namespace Multipart

open Octets

/-! ## Lines -/

/-- The first line, without its CRLF, and what follows it. -/
def line? : Bytes → Option (Bytes × Bytes)
  | [] => none
  | [_] => none
  | a :: b :: rest =>
    if a = 13 ∧ b = 10 then some ([], rest)
    else (line? (b :: rest)).map fun r => (a :: r.1, r.2)

theorem line?_append {l : Bytes} (h : 13 ∉ l) (rest : Bytes) :
    line? (l ++ crlf ++ rest) = some (l, rest) := by
  induction l with
  | nil => simp [crlf, line?]
  | cons a l ih =>
    simp only [List.mem_cons, not_or] at h
    have ih := ih h.2
    have ha : a ≠ 13 := Ne.symm h.1
    cases l with
    | nil => simp [crlf, line?, ha]
    | cons b l =>
      simp only [List.cons_append] at ih ⊢
      rw [line?, if_neg (by rintro ⟨rfl, -⟩; exact ha rfl), ih]
      rfl

/-- The lines up to the first empty one, at most `fuel` of them, and what follows. -/
def block? : Nat → Bytes → Option (List Bytes × Bytes)
  | 0, _ => none
  | fuel + 1, s =>
    match line? s with
    | none => none
    | some (l, rest) =>
      if l = [] then some ([], rest) else (block? fuel rest).map fun r => (l :: r.1, r.2)

def headerBlock? (s : Bytes) : Option (List Bytes × Bytes) := block? s.length s

def lines (ls : List Bytes) : Bytes := ls.flatMap (· ++ crlf)

theorem length_lines (ls : List Bytes) : ls.length ≤ (lines ls).length := by
  induction ls with
  | nil => simp [lines]
  | cons l ls ih =>
    simp only [lines, List.flatMap_cons, List.length_append, List.length_cons, crlf] at ih ⊢
    omega

theorem block?_lines {ls : List Bytes} (h : ∀ l ∈ ls, l ≠ [] ∧ 13 ∉ l) (rest : Bytes) :
    ∀ fuel, ls.length < fuel → block? fuel (lines ls ++ crlf ++ rest) = some (ls, rest) := by
  induction ls with
  | nil =>
    intro fuel hf
    obtain ⟨f, rfl⟩ : ∃ f, fuel = f + 1 := ⟨fuel - 1, by simp at hf; omega⟩
    rw [block?, show lines [] ++ crlf ++ rest = [] ++ crlf ++ rest from rfl,
      line?_append (by simp)]
    rfl
  | cons l ls ih =>
    intro fuel hf
    obtain ⟨f, rfl⟩ : ∃ f, fuel = f + 1 := ⟨fuel - 1, by simp at hf; omega⟩
    obtain ⟨hne, hcr⟩ := h l (by simp)
    have ih := ih (fun l' hl' => h l' (by simp [hl'])) f (by simpa using hf)
    have hs : lines (l :: ls) ++ crlf ++ rest = l ++ crlf ++ (lines ls ++ crlf ++ rest) := by
      simp [lines, List.append_assoc]
    rw [block?, hs, line?_append hcr]
    simp only
    rw [if_neg hne, ih]
    rfl

theorem headerBlock?_lines {ls : List Bytes} (h : ∀ l ∈ ls, l ≠ [] ∧ 13 ∉ l) (rest : Bytes) :
    headerBlock? (lines ls ++ crlf ++ rest) = some (ls, rest) := by
  apply block?_lines h
  have := length_lines ls
  simp only [List.length_append, crlf, List.length_cons, List.length_nil]
  omega

/-! ## Parts -/

def contentLengthName : Bytes := text "Content-Length: "

/-- The value of the first `Content-Length` line. -/
def contentLength? : List Bytes → Option Nat
  | [] => none
  | l :: ls =>
    if contentLengthName.isPrefixOf l then readDecimal (l.drop contentLengthName.length)
    else contentLength? ls

def delimiter (boundary : Bytes) : Bytes := text "--" ++ boundary

/-- One part: its body and what follows the part. -/
def part? (boundary s : Bytes) : Option (Bytes × Bytes) :=
  match line? s with
  | none => none
  | some (d, s) =>
    if d = delimiter boundary then
      match headerBlock? s with
      | none => none
      | some (headers, s) =>
        match contentLength? headers with
        | none => none
        | some n =>
          if n ≤ s.length ∧ (s.drop n).take 2 = crlf then some (s.take n, s.drop (n + 2)) else none
    else none

/-- The bodies of a stream of at most `fuel` parts, up to the end of the input. -/
def parts? (boundary : Bytes) : Nat → Bytes → Option (List Bytes)
  | 0, s => if s = [] then some [] else none
  | fuel + 1, s =>
    if s = [] then some []
    else
      match part? boundary s with
      | none => none
      | some (body, rest) => (parts? boundary fuel rest).map (body :: ·)

/-- A whole stream: every part takes at least one octet. -/
def stream? (boundary s : Bytes) : Option (List Bytes) := parts? boundary s.length s

/-- A part as it is sent, with header lines `headers` before its `Content-Length`. -/
def part (boundary : Bytes) (headers : List Bytes) (body : Bytes) : Bytes :=
  delimiter boundary ++ crlf ++
    (lines (headers ++ [contentLengthName ++ decimal body.length]) ++ crlf ++ (body ++ crlf))

section Parts

variable {boundary : Bytes} {headers : List Bytes}

theorem contentLength?_append (h : ∀ l ∈ headers, contentLengthName.isPrefixOf l = false) (n : Nat) :
    contentLength? (headers ++ [contentLengthName ++ decimal n]) = some n := by
  induction headers with
  | nil =>
    have hp : contentLengthName.isPrefixOf (contentLengthName ++ decimal n) = true := by
      rw [List.isPrefixOf_iff_prefix]; exact List.prefix_append _ _
    simp only [List.nil_append, contentLength?, hp, if_true, List.drop_left]
    exact readDecimal_decimal n
  | cons l ls ih =>
    have hl := h l (by simp)
    simp only [List.cons_append, contentLength?, hl, Bool.false_eq_true, if_false]
    exact ih fun l' hl' => h l' (by simp [hl'])

theorem decimal_no_cr (n : Nat) : 13 ∉ decimal n := by
  intro h
  obtain ⟨d, hd, he⟩ := mem_decimal h
  have := digit_toNat hd
  rw [← he] at this
  have : (13 : UInt8).toNat = 13 := rfl
  omega

/-- After the header block of a part, only its length and a CRLF behind the body matter. -/
theorem part?_header (hb : 13 ∉ boundary)
    (hh : ∀ l ∈ headers, l ≠ [] ∧ 13 ∉ l ∧ contentLengthName.isPrefixOf l = false) (n : Nat)
    (s : Bytes) :
    part? boundary (delimiter boundary ++ crlf ++
        (lines (headers ++ [contentLengthName ++ decimal n]) ++ crlf ++ s)) =
      if n ≤ s.length ∧ (s.drop n).take 2 = crlf then some (s.take n, s.drop (n + 2)) else none := by
  have hd : 13 ∉ delimiter boundary := by
    simp only [delimiter, List.mem_append, not_or]
    exact ⟨by decide, hb⟩
  have hlines : ∀ l ∈ headers ++ [contentLengthName ++ decimal n], l ≠ [] ∧ 13 ∉ l := by
    intro l hl
    simp only [List.mem_append, List.mem_singleton] at hl
    rcases hl with hl | rfl
    · exact ⟨(hh l hl).1, (hh l hl).2.1⟩
    · have hname : 13 ∉ contentLengthName := by decide
      refine ⟨by simp [contentLengthName, text], ?_⟩
      simp only [List.mem_append, not_or]
      exact ⟨hname, decimal_no_cr _⟩
  simp only [part?]
  rw [line?_append hd]
  simp only [if_true]
  rw [headerBlock?_lines hlines]
  simp only [contentLength?_append fun l hl => (hh l hl).2.2]

/-- A sent part is read back whatever its body is. -/
theorem part?_part (hb : 13 ∉ boundary)
    (hh : ∀ l ∈ headers, l ≠ [] ∧ 13 ∉ l ∧ contentLengthName.isPrefixOf l = false)
    (body rest : Bytes) :
    part? boundary (part boundary headers body ++ rest) = some (body, rest) := by
  have hs : part boundary headers body ++ rest = delimiter boundary ++ crlf ++
      (lines (headers ++ [contentLengthName ++ decimal body.length]) ++ crlf ++
        (body ++ (crlf ++ rest))) := by
    simp only [part, List.append_assoc]
  have hle : body.length ≤ (body ++ (crlf ++ rest)).length := by simp
  have hcrlf : ((body ++ (crlf ++ rest)).drop body.length).take 2 = crlf := by
    rw [List.drop_left]; rfl
  rw [hs, part?_header hb hh, if_pos ⟨hle, hcrlf⟩, List.take_left, ← List.drop_drop, List.drop_left]
  rfl

variable (boundary headers) in
theorem part_ne_nil (body : Bytes) : part boundary headers body ≠ [] := by
  simp [part, crlf]

/-- The bodies of a stream of parts are read back, all of them and in order. -/
theorem stream?_flatMap (hb : 13 ∉ boundary)
    (hh : ∀ l ∈ headers, l ≠ [] ∧ 13 ∉ l ∧ contentLengthName.isPrefixOf l = false)
    (bodies : List Bytes) :
    stream? boundary (bodies.flatMap (part boundary headers)) = some bodies := by
  have key : ∀ fuel, bodies.length ≤ fuel →
      parts? boundary fuel (bodies.flatMap (part boundary headers)) = some bodies := by
    induction bodies with
    | nil => intro fuel _; cases fuel <;> simp [parts?]
    | cons body bodies ih =>
      intro fuel hf
      obtain ⟨f, rfl⟩ : ∃ f, fuel = f + 1 := ⟨fuel - 1, by simp at hf; omega⟩
      rw [List.flatMap_cons, parts?, if_neg (by simp [part_ne_nil]), part?_part hb hh]
      simp only
      rw [ih f (by simpa using hf)]
      rfl
  apply key
  have hle : ∀ bs : List Bytes, bs.length ≤ (bs.flatMap (part boundary headers)).length := by
    intro bs
    induction bs with
    | nil => simp
    | cons b bs ih =>
      have := List.length_pos_iff.mpr (part_ne_nil boundary headers b)
      simp only [List.flatMap_cons, List.length_append, List.length_cons]
      omega
  exact hle bodies

end Parts

end Multipart

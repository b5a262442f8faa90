import TimerCam.Lib.Base64
import TimerCam.Lib.Builder
import Mathlib.Data.Set.Function

/-!
# Timelapse.Encode

`base64EncodeChunked` of `m5cam_timelapse_v9_end_final.ino`, and `String::replace`. Every character
of the encoding is one append, numbered on from `k`; whether it finds memory is up to `heap`.

* `base64EncodeChunked_eq` : the loops append the RFC 4648 encoding, character by character.
* `encoded_bijective`      : with memory for all of them, they are a bijection onto the canonical
  base64 strings.
* `escape_eq`              : the three replacements, character by character.
-/

namespace TimerCam
namespace Timelapse

open Octets

def base64Chars : Bytes :=
  text "ABCDEFGHIJKLMNOPQRSTUVWXYZabcdefghijklmnopqrstuvwxyz0123456789+/"

def charArray4 (a b c : UInt8) : List UInt8 :=
  [(a &&& 0xfc) >>> 2,
    ((a &&& 0x03) <<< 4) + ((b &&& 0xf0) >>> 4),
    ((b &&& 0x0f) <<< 2) + ((c &&& 0xc0) >>> 6),
    c &&& 0x3f]

/-- `while (length > 0)`, from `data` on. -/
def encodeLoop (heap : Nat → Bool) (data : Bytes) (encoded : Builder UInt8) : Builder UInt8 :=
  if 0 < data.length then
    let bytesToProcess := if data.length < 3 then data.length else 3
    let charArray3 := data.take bytesToProcess ++ List.replicate (3 - bytesToProcess) 0
    let chars := (charArray4 (charArray3.getD 0 0) (charArray3.getD 1 0) (charArray3.getD 2 0)).take
      (bytesToProcess + 1)
    let encoded := encoded.appendEach heap (chars.map fun i => base64Chars.getD i.toNat 0)
    let encoded := encoded.appendEach heap (List.replicate (3 - bytesToProcess) 61)
    encodeLoop heap (data.drop bytesToProcess) encoded
  else encoded
termination_by data.length
decreasing_by
  simp only [List.length_drop]
  split <;> omega

def base64EncodeChunked (heap : Nat → Bool) (k : Nat) (data : Bytes) : Builder UInt8 :=
  encodeLoop heap data ⟨[], k⟩

/-! ## The bits of a group -/

theorem octet_funext (f g : UInt8 → Nat)
    (h : ∀ n, n < 256 → f (UInt8.ofNat n) = g (UInt8.ofNat n)) : f = g := by
  funext a
  rw [← UInt8.ofNat_toNat (x := a)]
  exact h _ a.toNat_lt

theorem and_fc_shr (a : UInt8) : ((a &&& 0xfc) >>> 2).toNat = a.toNat / 4 :=
  congrFun (octet_funext (fun a => ((a &&& 0xfc) >>> 2).toNat) (·.toNat / 4)
    (by decide +kernel)) a

theorem and_03_shl (a : UInt8) : ((a &&& 0x03) <<< 4).toNat = a.toNat % 4 * 16 :=
  congrFun (octet_funext (fun a => ((a &&& 0x03) <<< 4).toNat) (·.toNat % 4 * 16)
    (by decide +kernel)) a

theorem and_f0_shr (b : UInt8) : ((b &&& 0xf0) >>> 4).toNat = b.toNat / 16 :=
  congrFun (octet_funext (fun b => ((b &&& 0xf0) >>> 4).toNat) (·.toNat / 16)
    (by decide +kernel)) b

theorem and_0f_shl (b : UInt8) : ((b &&& 0x0f) <<< 2).toNat = b.toNat % 16 * 4 :=
  congrFun (octet_funext (fun b => ((b &&& 0x0f) <<< 2).toNat) (·.toNat % 16 * 4)
    (by decide +kernel)) b

theorem and_c0_shr (c : UInt8) : ((c &&& 0xc0) >>> 6).toNat = c.toNat / 64 :=
  congrFun (octet_funext (fun c => ((c &&& 0xc0) >>> 6).toNat) (·.toNat / 64)
    (by decide +kernel)) c

theorem and_3f (c : UInt8) : (c &&& 0x3f).toNat = c.toNat % 64 :=
  congrFun (octet_funext (fun c => (c &&& 0x3f).toNat) (·.toNat % 64) (by decide +kernel)) c

theorem toNat_charArray4 (a b c : UInt8) :
    (charArray4 a b c).map UInt8.toNat =
      [a.toNat / 4, a.toNat % 4 * 16 + b.toNat / 16, b.toNat % 16 * 4 + c.toNat / 64,
        c.toNat % 64] := by
  have hb := b.toNat_lt
  have hc := c.toNat_lt
  have h₁ : (a.toNat % 4 * 16 + b.toNat / 16) % 2 ^ 8 = a.toNat % 4 * 16 + b.toNat / 16 :=
    Nat.mod_eq_of_lt (by omega)
  have h₂ : (b.toNat % 16 * 4 + c.toNat / 64) % 2 ^ 8 = b.toNat % 16 * 4 + c.toNat / 64 :=
    Nat.mod_eq_of_lt (by omega)
  simp only [charArray4, List.map_cons, List.map_nil, UInt8.toNat_add, and_fc_shr, and_03_shl,
    and_f0_shr, and_0f_shl, and_c0_shr, and_3f, h₁, h₂]

theorem map_charArray4 (a b c : UInt8) :
    (charArray4 a b c).map (fun i => base64Chars.getD i.toNat 0) = Base64.encodeGroup a b c := by
  have h : ∀ is : List UInt8, is.map (fun i => base64Chars.getD i.toNat 0) =
      (is.map UInt8.toNat).map Base64.char := by
    intro is
    rw [List.map_map]
    rfl
  rw [h, toNat_charArray4]
  rfl

theorem appendEach_appendEach {α : Type} (heap : Nat → Bool) (b : Builder α) (s t : List α) :
    (b.appendEach heap s).appendEach heap t = b.appendEach heap (s ++ t) :=
  List.foldl_append.symm

theorem encodeLoop_eq (heap : Nat → Bool) (data : Bytes) (encoded : Builder UInt8) :
    encodeLoop heap data encoded = encoded.appendEach heap (Base64.encode data) := by
  induction data using Base64.encode.induct generalizing encoded with
  | case1 =>
    rw [encodeLoop]
    rfl
  | case2 a =>
    have hg := congrArg (List.take 2) (map_charArray4 a 0 0)
    rw [← List.map_take] at hg
    rw [encodeLoop, if_pos (by simp), encodeLoop, if_neg (by simp), appendEach_appendEach]
    congr 1
    exact congrArg (· ++ [61, 61]) hg
  | case3 a b =>
    have hg := congrArg (List.take 3) (map_charArray4 a b 0)
    rw [← List.map_take] at hg
    rw [encodeLoop, if_pos (by simp), encodeLoop, if_neg (by simp), appendEach_appendEach]
    congr 1
    exact congrArg (· ++ [61]) hg
  | case4 a b c rest ih =>
    have hg := map_charArray4 a b c
    have hlen : ¬ (a :: b :: c :: rest).length < 3 := by simp
    rw [encodeLoop, if_pos (by simp)]
    simp only [if_neg hlen]
    rw [show (a :: b :: c :: rest).drop 3 = rest from rfl, ih, appendEach_appendEach,
      appendEach_appendEach]
    congr 1
    exact congrArg (· ++ [] ++ Base64.encode rest) hg

theorem base64EncodeChunked_eq (heap : Nat → Bool) (k : Nat) (data : Bytes) :
    base64EncodeChunked heap k data = (Builder.mk [] k).appendEach heap (Base64.encode data) :=
  encodeLoop_eq heap data _

/-- What the call returns when every append finds memory. -/
def encoded (data : Bytes) : Bytes := (base64EncodeChunked (fun _ => true) 0 data).text

theorem encoded_eq (data : Bytes) : encoded data = Base64.encode data := by
  have hadds : Builder.Adds (fun _ => true) ⟨[], 0⟩ (Base64.encode data) _ _ := .appendEach _ _
  rw [encoded, base64EncodeChunked_eq, hadds.all fun _ _ _ => rfl]
  rfl

/-- Octet strings and canonical base64 strings correspond: the encoding of `n` octets has
`4 * ((n + 2) / 3)` characters, with padding only where it completes the last group, and a strict
decoder gives back the octets; and every canonical string is the encoding of what it decodes to. -/
theorem encoded_bijective :
    (∀ data : Bytes, (encoded data).length = 4 * ((data.length + 2) / 3) ∧
      (∃ body, encoded data =
        body ++ List.replicate ((3 - data.length % 3) % 3) Base64.padding ∧
        Base64.padding ∉ body) ∧
      Base64.Canonical (encoded data) ∧ Base64.decode (encoded data) = some data) ∧
    (∀ s, Base64.Canonical s → ∃ data, Base64.decode s = some data ∧ encoded data = s) ∧
    Set.BijOn encoded Set.univ { s | Base64.Canonical s } := by
  have hdecode : ∀ data, Base64.decode (encoded data) = some data := by
    intro data
    rw [encoded_eq, Base64.decode_encode]
  have hcanonical : ∀ data, Base64.Canonical (encoded data) := by
    intro data
    rw [encoded_eq]
    exact Base64.encode_canonical data
  have hback : ∀ s, Base64.Canonical s → ∃ data, Base64.decode s = some data ∧ encoded data = s := by
    intro s hs
    obtain ⟨data, hdata⟩ := Base64.canonical_iff.mp hs
    exact ⟨data, hdata, by rw [encoded_eq, Base64.encode_decode hdata]⟩
  refine ⟨fun data => ⟨?_, ?_, hcanonical data, hdecode data⟩, hback, ?_, ?_, ?_⟩
  · rw [encoded_eq, Base64.encode_length]
  · rw [encoded_eq]
    exact Base64.encode_padding data
  · intro data _
    exact hcanonical data
  · intro a _ b _ hab
    have ha := hdecode a
    rw [hab, hdecode b] at ha
    exact (Option.some.inj ha).symm
  · intro s hs
    obtain ⟨data, -, hdata⟩ := hback s hs
    exact ⟨data, Set.mem_univ data, hdata⟩

/-! ## Replacements -/

/-- `String::replace`, with `skip` characters left of the last match. -/
def replaceFrom (find repl : Bytes) : Nat → Bytes → Bytes
  | _, [] => []
  | skip + 1, _ :: s => replaceFrom find repl skip s
  | 0, c :: s =>
    if find.isPrefixOf (c :: s) then repl ++ replaceFrom find repl (find.length - 1) s
    else c :: replaceFrom find repl 0 s

def replace (find repl s : Bytes) : Bytes := if find = [] then s else replaceFrom find repl 0 s

theorem replace_single (x : UInt8) (repl s : Bytes) :
    replace [x] repl s = s.flatMap fun c => if c = x then repl else [c] := by
  rw [replace, if_neg (by simp)]
  induction s with
  | nil => rfl
  | cons c s ih =>
    rw [replaceFrom, List.flatMap_cons, List.isPrefixOf_cons_cons, List.isPrefixOf_nil_left,
      Bool.and_true]
    by_cases hc : c = x
    · subst hc
      rw [if_pos (by simp), if_pos rfl]
      exact congrArg (repl ++ ·) ih
    · rw [if_neg (by simpa using Ne.symm hc), if_neg hc]
      exact congrArg (c :: ·) ih

/-- What a chunk goes through before it is appended to the body. -/
def escape (chunk : Bytes) : Bytes :=
  let chunk := replace (text "+") (text "%2B") chunk
  let chunk := replace (text "/") (text "%2F") chunk
  replace (text "=") (text "%3D") chunk

def escapeChar (c : UInt8) : Bytes :=
  if c = 43 then text "%2B" else if c = 47 then text "%2F" else if c = 61 then text "%3D" else [c]

theorem escape_eq (chunk : Bytes) : escape chunk = chunk.flatMap escapeChar := by
  have h : escape chunk = replace [61] (text "%3D") (replace [47] (text "%2F")
      (replace [43] (text "%2B") chunk)) := rfl
  rw [h, replace_single, replace_single, replace_single, List.flatMap_assoc, List.flatMap_assoc]
  congr 1
  funext c
  unfold escapeChar
  by_cases h₁ : c = 43
  · subst h₁; rfl
  · by_cases h₂ : c = 47
    · subst h₂; rfl
    · by_cases h₃ : c = 61
      · subst h₃; rfl
      · simp [h₁, h₂, h₃]

theorem escapeChar_ne_nil (c : UInt8) : escapeChar c ≠ [] := by
  unfold escapeChar
  split
  · simp [text]
  · split
    · simp [text]
    · split
      · simp [text]
      · simp

theorem escape_append (s t : Bytes) : escape (s ++ t) = escape s ++ escape t := by
  rw [escape_eq, escape_eq, escape_eq, List.flatMap_append]

theorem escape_ne_nil {s : Bytes} (h : s ≠ []) : escape s ≠ [] := by
  cases s with
  | nil => exact absurd rfl h
  | cons c s => simp [escape_eq, escapeChar_ne_nil]

/-- A part of a chunk stays at least as much shorter when both are escaped. -/
theorem length_escape_of_sublist {s t : Bytes} (h : s.Sublist t) :
    t.length + (escape s).length ≤ s.length + (escape t).length := by
  rw [escape_eq, escape_eq]
  induction h with
  | slnil => simp
  | @cons s t c _ ih =>
    have := List.length_pos_iff.mpr (escapeChar_ne_nil c)
    simp only [List.flatMap_cons, List.length_append, List.length_cons]
    omega
  | @cons_cons s t c _ ih =>
    simp only [List.flatMap_cons, List.length_append, List.length_cons]
    omega

end Timelapse
end TimerCam

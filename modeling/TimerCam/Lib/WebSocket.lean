import TimerCam.Lib.Octets
import Mathlib.Tactic.Common

/-!
# Lib.WebSocket

The frames of RFC 6455 §5.2: a reader that takes nothing but what the RFC allows (no reserved bits,
the shortest form of the length), and what a receiver makes of a sequence of frames (§5.4).

* `be`, `ofBe`   : big-endian numbers.
* `unmask`       : the masking of §5.3, from any position on.
* `frame?_bytes` : a frame is read back, and what follows it is left.
* `parts`        : the parts of messages in a sequence of frames.
-/

namespace WebSocket

open Octets

/-! ## Big-endian numbers -/

/-- The last `w` octets of `n`. -/
def be : Nat → Nat → Bytes
  | 0, _ => []
  | w + 1, n => UInt8.ofNat (n / 256 ^ w % 256) :: be w n

def ofBe (s : Bytes) : Nat := s.foldl (fun n c => n * 256 + c.toNat) 0

@[simp] theorem length_be (w n : Nat) : (be w n).length = w := by
  induction w with
  | zero => rfl
  | succ w ih => rw [be, List.length_cons, ih]

theorem foldl_be (w n a : Nat) :
    (be w n).foldl (fun n c => n * 256 + c.toNat) a = a * 256 ^ w + n % 256 ^ w := by
  induction w generalizing a with
  | zero => simp [be, Nat.mod_one]
  | succ w ih =>
    have hoctet : (UInt8.ofNat (n / 256 ^ w % 256)).toNat = n / 256 ^ w % 256 :=
      UInt8.toNat_ofNat_of_lt' (Nat.mod_lt _ (by decide))
    have hsplit := Nat.mod_mul (a := 256 ^ w) (b := 256) (x := n)
    rw [be, List.foldl_cons, ih, hoctet, Nat.pow_succ, hsplit, Nat.add_mul]
    ring

theorem ofBe_be {w n : Nat} (h : n < 256 ^ w) : ofBe (be w n) = n := by
  rw [ofBe, foldl_be, Nat.zero_mul, Nat.zero_add, Nat.mod_eq_of_lt h]

theorem foldl_ofBe (n : Nat) (s : Bytes) :
    s.foldl (fun n c => n * 256 + c.toNat) n = n * 256 ^ s.length + ofBe s := by
  induction s generalizing n with
  | nil => simp [ofBe]
  | cons c s ih =>
    have hcons : ofBe (c :: s) = s.foldl (fun n c => n * 256 + c.toNat) (0 * 256 + c.toNat) := rfl
    rw [List.foldl_cons, hcons, ih (n * 256 + c.toNat), ih (0 * 256 + c.toNat), List.length_cons,
      Nat.pow_succ]
    ring

theorem ofBe_cons (c : UInt8) (s : Bytes) : ofBe (c :: s) = c.toNat * 256 ^ s.length + ofBe s := by
  rw [ofBe, List.foldl_cons, foldl_ofBe, Nat.zero_mul, Nat.zero_add]

theorem ofBe_lt (s : Bytes) : ofBe s < 256 ^ s.length := by
  induction s with
  | nil => exact Nat.one_pos
  | cons c s ih =>
    have hc := c.toNat_lt
    have hle : (c.toNat + 1) * 256 ^ s.length ≤ 256 * 256 ^ s.length :=
      Nat.mul_le_mul_right _ (by omega)
    rw [ofBe_cons, List.length_cons, Nat.pow_succ, Nat.mul_comm (256 ^ s.length)]
    rw [Nat.add_mul, Nat.one_mul] at hle
    omega

/-! ## Masks -/

abbrev Key := Vector UInt8 4

def zeroKey : Key := #v[0, 0, 0, 0]

def Key.at (key : Key) (k : Nat) : UInt8 := key.get (Fin.ofNat 4 k)

/-- The octets masked, or unmasked, from position `k` of the key on. -/
def unmask (key : Key) : Nat → Bytes → Bytes
  | _, [] => []
  | k, c :: s => (c ^^^ key.at k) :: unmask key (k + 1) s

@[simp] theorem length_unmask (key : Key) (k : Nat) (s : Bytes) :
    (unmask key k s).length = s.length := by
  induction s generalizing k with
  | nil => rfl
  | cons c s ih => rw [unmask, List.length_cons, ih, List.length_cons]

theorem unmask_unmask (key : Key) (k : Nat) (s : Bytes) : unmask key k (unmask key k s) = s := by
  induction s generalizing k with
  | nil => rfl
  | cons c s ih =>
    rw [unmask, unmask, ih, UInt8.xor_assoc, UInt8.xor_self, UInt8.xor_zero]

/-! ## Frames -/

instance neZeroOpcodes : NeZero 16 := ⟨by decide⟩

structure Frame where
  fin : Bool
  opcode : Fin 16
  key : Option Key
  payload : Bytes
deriving DecidableEq

def Frame.control (f : Frame) : Bool := 8 ≤ f.opcode.val

def flag (b : Bool) : Nat := if b then 128 else 0

/-- The length in its shortest form, and the octets of a longer one. -/
def lengthField (masked : Bool) (n : Nat) : Bytes :=
  if n < 126 then [UInt8.ofNat (flag masked + n)]
  else if n < 65536 then UInt8.ofNat (flag masked + 126) :: be 2 n
  else UInt8.ofNat (flag masked + 127) :: be 8 n

def keyBytes : Option Key → Bytes
  | none => []
  | some key => key.toList

def masked : Option Key → Bytes → Bytes
  | none, s => s
  | some key, s => unmask key 0 s

def Frame.bytes (f : Frame) : Bytes :=
  UInt8.ofNat (flag f.fin + f.opcode) :: lengthField f.key.isSome f.payload.length ++
    keyBytes f.key ++ masked f.key f.payload

/-- The length that `l` stands for, by itself or with the octets that follow. -/
def length? (l : Nat) (s : Bytes) : Option (Nat × Bytes) :=
  if l < 126 then some (l, s)
  else
    let w := if l = 126 then 2 else 8
    let n := ofBe (s.take w)
    if w ≤ s.length ∧ (if l = 126 then 126 ≤ n else 65536 ≤ n ∧ n < 2 ^ 63) then some (n, s.drop w)
    else none

def keyOf (s : Bytes) : Key := #v[s.getD 0 0, s.getD 1 0, s.getD 2 0, s.getD 3 0]

/-- The first frame, and what follows it. -/
def frame? : Bytes → Option (Frame × Bytes)
  | a :: b :: s =>
    if a.toNat / 16 % 8 = 0 then
      match length? (b.toNat % 128) s with
      | none => none
      | some (n, s) =>
        let key := if 128 ≤ b.toNat then some (keyOf s) else none
        let k := (keyBytes key).length
        if k + n ≤ s.length then
          some (⟨128 ≤ a.toNat, Fin.ofNat 16 a.toNat, key, masked key ((s.drop k).take n)⟩,
            (s.drop k).drop n)
        else none
    else none
  | _ => none

theorem length?_lengthField (m : Bool) {n : Nat} (hn : n < 2 ^ 63) (rest : Bytes) :
    ∃ b s, lengthField m n = b :: s ∧ b.toNat / 128 = flag m / 128 ∧
      length? (b.toNat % 128) (s ++ rest) = some (n, rest) := by
  have hflag : flag m = 128 * (flag m / 128) ∧ flag m / 128 < 2 := by
    cases m with
    | true => exact ⟨rfl, Nat.one_lt_two⟩
    | false => exact ⟨rfl, Nat.two_pos⟩
  have hoctet : ∀ l, l < 128 → (UInt8.ofNat (flag m + l)).toNat = flag m + l := by
    intro l hl
    exact UInt8.toNat_ofNat_of_lt' (by simp only [UInt8.size]; omega)
  unfold lengthField
  split
  · rename_i hlt
    refine ⟨_, [], rfl, ?_, ?_⟩
    · rw [hoctet n (by omega)]
      omega
    · rw [hoctet n (by omega), show (flag m + n) % 128 = n by omega, length?, if_pos hlt]
      rfl
  · split
    · rename_i hge hlt
      refine ⟨_, _, rfl, ?_, ?_⟩
      · rw [hoctet 126 (by omega)]
        omega
      · have hread : ofBe ((be 2 n ++ rest).take 2) = n := by
          rw [List.take_left' (length_be 2 n), ofBe_be hlt]
        rw [hoctet 126 (by omega), show (flag m + 126) % 128 = 126 by omega, length?,
          if_neg (by omega)]
        simp only [if_true, hread, List.drop_left' (length_be 2 n)]
        rw [if_pos ⟨by simp, by omega⟩]
    · rename_i hge hge'
      refine ⟨_, _, rfl, ?_, ?_⟩
      · rw [hoctet 127 (by omega)]
        omega
      · have h127 : (127 : Nat) ≠ 126 := by decide
        have hread : ofBe ((be 8 n ++ rest).take 8) = n := by
          rw [List.take_left' (length_be 8 n), ofBe_be (Nat.lt_trans hn (by decide))]
        rw [hoctet 127 (by omega), show (flag m + 127) % 128 = 127 by omega, length?,
          if_neg (by omega)]
        simp only [if_neg h127, hread, List.drop_left' (length_be 8 n)]
        rw [if_pos ⟨by simp, by omega, hn⟩]

theorem keyOf_toList (key : Key) (s : Bytes) : keyOf (key.toList ++ s) = key := by
  obtain ⟨⟨l⟩, hl⟩ := key
  obtain ⟨a, b, c, d, rfl⟩ : ∃ a b c d, l = [a, b, c, d] := by
    match l, hl with
    | [a, b, c, d], _ => exact ⟨a, b, c, d, rfl⟩
  rfl

theorem masked_masked (key : Option Key) (s : Bytes) : masked key (masked key s) = s := by
  cases key with
  | none => rfl
  | some key => exact unmask_unmask key 0 s

@[simp] theorem length_masked (key : Option Key) (s : Bytes) : (masked key s).length = s.length := by
  cases key with
  | none => rfl
  | some key => exact length_unmask key 0 s

/-- A frame is read back, and what follows it is left. -/
theorem frame?_bytes {f : Frame} (hn : f.payload.length < 2 ^ 63) (rest : Bytes) :
    frame? (f.bytes ++ rest) = some (f, rest) := by
  obtain ⟨fin, opcode, key, payload⟩ := f
  obtain ⟨b, s, hfield, hflag, hlen⟩ := length?_lengthField key.isSome hn
    (keyBytes key ++ (masked key payload ++ rest))
  have hop := opcode.isLt
  have hfin : flag fin ≤ 128 ∧ flag fin % 128 = 0 ∧ decide (128 ≤ flag fin + opcode) = fin := by
    cases fin with
    | true => exact ⟨Nat.le_refl _, rfl, decide_eq_true (by simp [flag])⟩
    | false =>
      refine ⟨Nat.zero_le 128, rfl, decide_eq_false ?_⟩
      simp only [flag, Bool.false_eq_true, if_false]
      omega
  have ha : (UInt8.ofNat (flag fin + opcode)).toNat = flag fin + opcode :=
    UInt8.toNat_ofNat_of_lt' (by simp only [UInt8.size]; omega)
  have hbytes : Frame.bytes ⟨fin, opcode, key, payload⟩ ++ rest =
      UInt8.ofNat (flag fin + opcode) :: b ::
        (s ++ (keyBytes key ++ (masked key payload ++ rest))) := by
    simp only [Frame.bytes, hfield, List.cons_append, List.append_assoc]
  have hkey : (if 128 ≤ b.toNat then
      some (keyOf (keyBytes key ++ (masked key payload ++ rest))) else none) = key := by
    have hb := b.toNat_lt
    cases key with
    | none =>
      have : flag (none : Option Key).isSome / 128 = 0 := rfl
      rw [if_neg (by omega)]
    | some key =>
      have : flag (some key).isSome / 128 = 1 := by simp [flag]
      rw [if_pos (by omega), keyBytes, keyOf_toList]
  rw [hbytes, frame?, ha, if_pos (by omega), hlen]
  simp only [hkey, List.drop_left, hfin.2.2]
  rw [if_pos (by simp), List.take_left' (length_masked key payload),
    List.drop_left' (length_masked key payload), masked_masked]
  have hlow : Fin.ofNat 16 (flag fin + opcode) = opcode := Fin.ext (by simp only [Fin.ofNat]; omega)
  rw [hlow]

/-! ## Messages -/

/-- A part of a message: its type, whether it is the last, and its octets. -/
structure Part where
  type : Fin 16
  fin : Bool
  payload : Bytes
deriving DecidableEq

/-- The type of the message that goes on behind `f`, where `cur` is that of the message before it.
Control frames may stand anywhere. -/
def next (cur : Option (Fin 16)) (f : Frame) : Option (Fin 16) :=
  if f.control then cur
  else if f.fin then none
  else if f.opcode = 0 then cur
  else some f.opcode

def part? (cur : Option (Fin 16)) (f : Frame) : Option Part :=
  if f.control then none
  else some ⟨if f.opcode = 0 then cur.getD 0 else f.opcode, f.fin, f.payload⟩

/-- The parts of messages in a sequence of frames. -/
def parts : Option (Fin 16) → List Frame → List Part
  | _, [] => []
  | cur, f :: fs => (part? cur f).toList ++ parts (next cur f) fs

/-- The type of the message that goes on behind a sequence of frames. -/
def nextAll (cur : Option (Fin 16)) (fs : List Frame) : Option (Fin 16) := fs.foldl next cur

/-- No octet of a part is in a control frame, and none of another frame is left out. -/
theorem parts_payload (cur : Option (Fin 16)) (fs : List Frame) :
    (parts cur fs).map (·.payload) = (fs.filter (!·.control)).map (·.payload) := by
  induction fs generalizing cur with
  | nil => rfl
  | cons f fs ih =>
    rw [parts, List.map_append, ih, part?]
    cases hc : f.control with
    | true => simp [hc]
    | false => simp [hc]

/-- A frame that may follow in a message of type `cur`, or outside of one: outside every message a
ping or a pong of at most 125 octets, or the first frame of a message; in a message its next frame. -/
def Follows (cur : Option (Fin 16)) (f : Frame) : Prop :=
  if f.control then
    cur = none ∧ (f.opcode = 9 ∨ f.opcode = 10) ∧ f.fin = true ∧ f.payload.length ≤ 125
  else (f.opcode = 0 ↔ cur.isSome = true) ∧ f.payload.length < 2 ^ 31

/-- Frames in order, with no control frame inside a message. -/
def Orderly : Option (Fin 16) → List Frame → Prop
  | _, [] => True
  | cur, f :: fs => Follows cur f ∧ Orderly (next cur f) fs

end WebSocket

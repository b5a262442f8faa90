import TimerCam.Timelapse.Upload

/-!
# Timelapse.Machine

The loops of `base64EncodeChunked` and `uploadToGoogleDrive` in the 32-bit arithmetic of `size_t`,
over the memory behind `buffer`. Every access and every computation of a size is logged.

* `Logs`           : what a stretch of the log says; `Does` adds what was appended to the `String`.
* `encodeLoop_spec`, `chunkLoop_spec` : what the loops log, and that they build what the loops over
  lists of `Timelapse` build.
* `loops_safe`     : so it is for every size.
-/

namespace TimerCam
namespace Timelapse
namespace Machine

open Octets

/-- A size is computed, or memory is accessed; `read` is an access to `buffer` at an offset, `chunk` a
call of `base64EncodeChunked` on `buffer + processed`. -/
inductive Op where
  | chunk (processed chunkSize : UInt32)
  | read (offset : UInt32)
  | charArray4 (i : UInt32)
  | base64Chars (i : UInt8)
  | sub (a b : UInt32)
  | add (a b : UInt32)
deriving DecidableEq

/-- The `String` that is built, and the log. -/
structure State where
  out : Builder UInt8
  ops : List Op

def State.log (s : State) (ops : List Op) : State := { s with ops := s.ops ++ ops }

/-- `encoded += c` -/
def State.put (heap : Nat → Bool) (s : State) (c : UInt8) : State :=
  { s with out := s.out.append heap [c] }

/-! ## Sizes -/

theorem toNat_add {a b : UInt32} (h : a.toNat + b.toNat < 2 ^ 32) :
    (a + b).toNat = a.toNat + b.toNat := by
  rw [UInt32.toNat_add]
  exact Nat.mod_eq_of_lt h

theorem toNat_sub {a b : UInt32} (h : b.toNat ≤ a.toNat) : (a - b).toNat = a.toNat - b.toNat :=
  UInt32.toNat_sub_of_le a b (UInt32.le_iff_toNat_le.mpr h)

theorem toNat_succ {a b : UInt32} (h : a < b) : (a + 1).toNat = a.toNat + 1 := by
  have := UInt32.lt_iff_toNat_lt.mp h
  have := b.toNat_lt
  exact toNat_add (by rw [UInt32.toNat_one]; omega)

/-- `(length < 3) ? length : 3` -/
def bytesToProcess (length : UInt32) : UInt32 := if length < 3 then length else 3

theorem toNat_bytesToProcess (length : UInt32) :
    (bytesToProcess length).toNat = min length.toNat 3 := by
  have h3 : (3 : UInt32).toNat = 3 := rfl
  unfold bytesToProcess
  split
  · rename_i h
    rw [UInt32.lt_iff_toNat_lt, h3] at h
    omega
  · rename_i h
    rw [UInt32.lt_iff_toNat_lt, h3] at h
    rw [h3]
    omega

def CHUNK_SIZE : UInt32 := 510

/-- `(size - processed) > CHUNK_SIZE ? CHUNK_SIZE : (size - processed)` -/
def chunkSize (size processed : UInt32) : UInt32 :=
  if size - processed > CHUNK_SIZE then CHUNK_SIZE else size - processed

theorem toNat_chunkSize {size processed : UInt32} (h : processed.toNat ≤ size.toNat) :
    (chunkSize size processed).toNat = min (size.toNat - processed.toNat) 510 := by
  have h510 : CHUNK_SIZE.toNat = 510 := rfl
  unfold chunkSize
  split
  · rename_i hlt
    rw [gt_iff_lt, UInt32.lt_iff_toNat_lt, toNat_sub h, h510] at hlt
    rw [h510]
    omega
  · rename_i hlt
    rw [gt_iff_lt, UInt32.lt_iff_toNat_lt, toNat_sub h, h510] at hlt
    rw [toNat_sub h]
    omega

/-! ## The loops -/

/-- `for (i = 0; i < bytesToProcess + 1; i++) encoded += base64Chars[charArray4[i]];` -/
def forLoop (heap : Nat → Bool) (chars : List UInt8) (bytesToProcess i : UInt32) (s : State) :
    State :=
  let s := s.log [.add bytesToProcess 1]
  if i < bytesToProcess + 1 then
    let c := chars.getD i.toNat 0
    let s := (s.log [.charArray4 i, .base64Chars c]).put heap (base64Chars.getD c.toNat 0)
    forLoop heap chars bytesToProcess (i + 1) (s.log [.add i 1])
  else s
termination_by (bytesToProcess + 1).toNat - i.toNat
decreasing_by
  rename_i h
  have := toNat_succ h
  have := UInt32.lt_iff_toNat_lt.mp h
  omega

/-- `while (bytesToProcess++ < 3) encoded += '=';` -/
def padLoop (heap : Nat → Bool) (bytesToProcess : UInt32) (s : State) : State :=
  let s := s.log [.add bytesToProcess 1]
  if bytesToProcess < 3 then padLoop heap (bytesToProcess + 1) (s.put heap 61) else s
termination_by 3 - bytesToProcess.toNat
decreasing_by
  rename_i h
  have := toNat_succ h
  have : bytesToProcess.toNat < 3 := UInt32.lt_iff_toNat_lt.mp h
  omega

/-- The offsets that `memcpy` reads. -/
def offsets (data n : UInt32) : List UInt32 :=
  (List.range n.toNat).map fun j => data + UInt32.ofNat j

/-- `memcpy(charArray3, data, n); data += n; length -= n;` -/
def copyOps (data length n : UInt32) : List Op :=
  (offsets data n).map .read ++ [.add data n, .sub length n]

/-- `while (length > 0)`; `data` is an offset in `buffer`. -/
def encodeLoop (heap : Nat → Bool) (mem : UInt32 → UInt8) (data length : UInt32) (s : State) :
    State :=
  if 0 < length then
    let n := bytesToProcess length
    let charArray3 := (offsets data n).map mem ++ List.replicate (3 - n.toNat) 0
    let s := s.log (copyOps data length n)
    let chars := charArray4 (charArray3.getD 0 0) (charArray3.getD 1 0) (charArray3.getD 2 0)
    encodeLoop heap mem (data + n) (length - n) (padLoop heap n (forLoop heap chars n 0 s))
  else s
termination_by length.toNat
decreasing_by
  rename_i h
  have hpos : 0 < length.toNat := UInt32.lt_iff_toNat_lt.mp h
  have hn := toNat_bytesToProcess length
  rw [toNat_sub (by omega)]
  omega

/-- `while (processed < size)` -/
def chunkLoop (heap : Nat → Bool) (mem : UInt32 → UInt8) (size processed : UInt32) (s : State) :
    State :=
  if processed < size then
    let n := chunkSize size processed
    let chunk := encodeLoop heap mem processed n
      ⟨⟨[], s.out.appends⟩, s.ops ++ [.sub size processed, .chunk processed n]⟩
    let postData := (Builder.mk s.out.text chunk.out.appends).append heap (escape chunk.out.text)
    chunkLoop heap mem size (processed + n) ⟨postData, chunk.ops ++ [.add processed n]⟩
  else s
termination_by size.toNat - processed.toNat
decreasing_by
  rename_i h
  have hlt : processed.toNat < size.toNat := UInt32.lt_iff_toNat_lt.mp h
  have hn := toNat_chunkSize (Nat.le_of_lt hlt)
  have := size.toNat_lt
  rw [toNat_add (by omega)]
  omega

/-! ## What a log says -/

/-- An index in its array; a size that does not wrap. -/
def Op.Safe : Op → Prop
  | .charArray4 i => i.toNat ≤ 3
  | .base64Chars i => i.toNat ≤ 63
  | .sub a b => b.toNat ≤ a.toNat
  | .add a b => a.toNat + b.toNat < 2 ^ 32
  | .chunk _ _ | .read _ => True

def reads (ops : List Op) : List UInt32 :=
  ops.filterMap fun
    | .read offset => some offset
    | _ => none

def chunks (ops : List Op) : List (UInt32 × UInt32) :=
  ops.filterMap fun
    | .chunk processed n => some (processed, n)
    | _ => none

/-- From `a` to `b` safe steps were logged, with `n` chunks and the reads `rs`. -/
structure Logs (a b : List Op) (rs : List UInt32) (n : Nat) : Prop where
  added : ∃ new, b = a ++ new ∧ (∀ op ∈ new, op.Safe) ∧ reads new = rs ∧ (chunks new).length = n

namespace Logs

theorem refl (a : List Op) : Logs a a [] 0 :=
  ⟨[], (List.append_nil a).symm, by simp, rfl, rfl⟩

theorem trans {a b c : List Op} {rs rs' : List UInt32} {n n' : Nat} (h₁ : Logs a b rs n)
    (h₂ : Logs b c rs' n') : Logs a c (rs ++ rs') (n + n') := by
  obtain ⟨new₁, rfl, safe₁, reads₁, chunks₁⟩ := h₁.added
  obtain ⟨new₂, rfl, safe₂, reads₂, chunks₂⟩ := h₂.added
  refine ⟨new₁ ++ new₂, List.append_assoc _ _ _, ?_, ?_, ?_⟩
  · exact List.forall_mem_append.mpr ⟨safe₁, safe₂⟩
  · rw [← reads₁, ← reads₂]
    exact List.filterMap_append
  · rw [← chunks₁, ← chunks₂, ← List.length_append]
    exact congrArg List.length List.filterMap_append

theorem log (a : List Op) {new : List Op} (h : ∀ op ∈ new, op.Safe) :
    Logs a (a ++ new) (reads new) (chunks new).length :=
  ⟨new, rfl, h, rfl, rfl⟩

end Logs

/-- From `s` to `s'` the characters `cs` were appended, and safe steps logged, with the reads `rs`. -/
structure Does (heap : Nat → Bool) (s s' : State) (cs : Bytes) (rs : List UInt32) : Prop where
  out : s'.out = s.out.appendEach heap cs
  logs : Logs s.ops s'.ops rs 0

namespace Does

variable {heap : Nat → Bool} {s s₁ s₂ : State} {cs cs' : Bytes} {rs rs' : List UInt32}

theorem trans (h₁ : Does heap s s₁ cs rs) (h₂ : Does heap s₁ s₂ cs' rs') :
    Does heap s s₂ (cs ++ cs') (rs ++ rs') where
  out := by rw [h₂.out, h₁.out, appendEach_appendEach]
  logs := h₁.logs.trans h₂.logs

theorem log (s : State) {new : List Op} (h : ∀ op ∈ new, op.Safe) (hc : chunks new = []) :
    Does heap s (s.log new) [] (reads new) where
  out := rfl
  logs := by
    have := Logs.log s.ops h
    rwa [hc] at this

theorem put (s : State) (c : UInt8) : Does heap s (s.put heap c) [c] [] where
  out := rfl
  logs := .refl _

end Does

/-! ## The loops, one by one -/

section Loops

variable {heap : Nat → Bool}

theorem forLoop_does {chars : List UInt8} (hlen : chars.length = 4)
    (hchars : ∀ c ∈ chars, c.toNat ≤ 63) {n : UInt32} (hn : n.toNat ≤ 3) (i : UInt32)
    (hi : i.toNat ≤ n.toNat + 1) (s : State) :
    Does heap s (forLoop heap chars n i s)
      (((chars.drop i.toNat).take (n.toNat + 1 - i.toNat)).map fun c => base64Chars.getD c.toNat 0)
      [] := by
  have hsucc : (n + 1).toNat = n.toNat + 1 := toNat_add (by rw [UInt32.toNat_one]; omega)
  have hadd : ∀ op ∈ [Op.add n 1], op.Safe := by
    simp only [List.mem_singleton, forall_eq, Op.Safe, UInt32.toNat_one]
    omega
  induction hk : n.toNat + 1 - i.toNat generalizing i s with
  | zero =>
    have hge : ¬ i < n + 1 := by
      rw [UInt32.lt_iff_toNat_lt]
      omega
    rw [forLoop]
    simp only [if_neg hge]
    exact .log s hadd rfl
  | succ k ih =>
    have hlt : i < n + 1 := by
      rw [UInt32.lt_iff_toNat_lt]
      omega
    have hi' := toNat_succ hlt
    have hget : i.toNat < chars.length := by omega
    have hc : chars.getD i.toNat 0 = chars[i.toNat] := by
      rw [List.getD_eq_getElem?_getD, List.getElem?_eq_getElem hget]
      rfl
    have hindex : ∀ op ∈ [Op.charArray4 i, .base64Chars chars[i.toNat]], op.Safe := by
      simp only [List.mem_cons, List.not_mem_nil, or_false, forall_eq_or_imp, forall_eq, Op.Safe]
      exact ⟨by omega, hchars _ (List.getElem_mem hget)⟩
    have hnext : ∀ op ∈ [Op.add i 1], op.Safe := by
      simp only [List.mem_singleton, forall_eq, Op.Safe, UInt32.toNat_one]
      omega
    rw [forLoop]
    simp only [if_pos hlt, hc]
    have hpass : Does heap s _ [base64Chars.getD chars[i.toNat].toNat 0] _ :=
      (((Does.log s hadd rfl).trans (.log _ hindex rfl)).trans
        (.put _ (base64Chars.getD chars[i.toNat].toNat 0))).trans (.log _ hnext rfl)
    rw [List.drop_eq_getElem_cons hget, List.take_succ_cons, List.map_cons, ← hi']
    exact hpass.trans (ih (i + 1) (by omega) _ (by omega))

theorem padLoop_does (n : UInt32) (hn : n.toNat ≤ 3) (s : State) :
    Does heap s (padLoop heap n s) (List.replicate (3 - n.toNat) 61) [] := by
  have h3 : (3 : UInt32).toNat = 3 := rfl
  have hadd : ∀ op ∈ [Op.add n 1], op.Safe := by
    simp only [List.mem_singleton, forall_eq, Op.Safe, UInt32.toNat_one]
    omega
  induction hk : 3 - n.toNat generalizing n s with
  | zero =>
    have hge : ¬ n < 3 := by
      rw [UInt32.lt_iff_toNat_lt]
      omega
    rw [padLoop]
    simp only [if_neg hge]
    exact .log s hadd rfl
  | succ k ih =>
    have hlt : n < 3 := by
      rw [UInt32.lt_iff_toNat_lt]
      omega
    have hn' := toNat_succ hlt
    have hadd' : ∀ op ∈ [Op.add (n + 1) 1], op.Safe := by
      simp only [List.mem_singleton, forall_eq, Op.Safe, UInt32.toNat_one]
      omega
    rw [padLoop]
    simp only [if_pos hlt]
    exact ((Does.log s hadd rfl).trans (.put _ 61)).trans (ih (n + 1) (by omega) _ hadd' (by omega))

/-! ## The memory behind `buffer` -/

/-- The offsets from `start` on. -/
def offsetsFrom (start n : Nat) : List UInt32 := (List.range' start n).map UInt32.ofNat

/-- The `n` octets of `buffer` from `start` on. -/
def slice (mem : UInt32 → UInt8) (start n : Nat) : Bytes := (offsetsFrom start n).map mem

theorem offsets_eq (data n : UInt32) : offsets data n = offsetsFrom data.toNat n.toNat := by
  rw [offsets, offsetsFrom, List.range'_eq_map_range, List.map_map]
  refine List.map_congr_left fun j _ => ?_
  rw [Function.comp_apply, UInt32.ofNat_add, UInt32.ofNat_toNat]

theorem offsetsFrom_add (start m n : Nat) :
    offsetsFrom start (m + n) = offsetsFrom start m ++ offsetsFrom (start + m) n := by
  rw [offsetsFrom, ← List.range'_append_1, List.map_append]
  rfl

theorem offsetsFrom_toNat {start n : Nat} (h : start + n ≤ 2 ^ 32) :
    (offsetsFrom start n).map UInt32.toNat = List.range' start n := by
  rw [offsetsFrom, List.map_map, List.map_congr_left, List.map_id]
  intro k hk
  have := (List.mem_range'_1.mp hk).2
  exact UInt32.toNat_ofNat_of_lt' (by unfold UInt32.size; omega)

@[simp] theorem slice_length (mem : UInt32 → UInt8) (start n : Nat) :
    (slice mem start n).length = n := by
  simp [slice, offsetsFrom]

theorem slice_take (mem : UInt32 → UInt8) (start n k : Nat) :
    (slice mem start n).take k = slice mem start (min n k) := by
  rw [slice, slice, offsetsFrom, offsetsFrom, ← List.map_take, ← List.map_take]
  rcases Nat.le_total n k with h | h
  · rw [List.take_range'_of_length_le h, Nat.min_eq_left h]
  · rw [List.take_range'_of_length_ge h, Nat.min_eq_right h]

theorem slice_drop (mem : UInt32 → UInt8) (start n k : Nat) :
    (slice mem start n).drop k = slice mem (start + k) (n - k) := by
  rw [slice, slice, offsetsFrom, offsetsFrom, ← List.map_drop, ← List.map_drop, List.drop_range',
    Nat.mul_one]

theorem charArray4_le (a b c : UInt8) : ∀ i ∈ charArray4 a b c, i.toNat ≤ 63 := by
  intro i hi
  have hmem : i.toNat ∈ (charArray4 a b c).map UInt8.toNat := List.mem_map_of_mem hi
  have ha := a.toNat_lt
  have hb := b.toNat_lt
  have hc := c.toNat_lt
  rw [toNat_charArray4] at hmem
  simp only [List.mem_cons, List.not_mem_nil, or_false] at hmem
  omega

theorem copyOps_safe {data length n : UInt32} (hn : n.toNat ≤ length.toNat)
    (hfits : data.toNat + length.toNat < 2 ^ 32) : ∀ op ∈ copyOps data length n, op.Safe := by
  refine List.forall_mem_append.mpr ⟨List.forall_mem_map.mpr fun _ _ => trivial, ?_⟩
  simp only [List.mem_cons, List.not_mem_nil, or_false, forall_eq_or_imp, forall_eq, Op.Safe]
  omega

theorem reads_copyOps (data length n : UInt32) :
    reads (copyOps data length n) = offsetsFrom data.toNat n.toNat := by
  rw [← offsets_eq, copyOps, reads, List.filterMap_append, List.filterMap_map]
  exact (List.append_nil _).trans List.filterMap_some

theorem chunks_copyOps (data length n : UInt32) : chunks (copyOps data length n) = [] := by
  rw [copyOps, chunks, List.filterMap_append, List.filterMap_map]
  exact (List.append_nil _).trans (List.filterMap_eq_nil_iff.mpr fun _ _ => rfl)

/-- One group: what it appends is what `Timelapse.encodeLoop` appends for it. -/
theorem encodeLoop_step (mem : UInt32 → UInt8) {data length : UInt32} (hpos : 0 < length)
    (hfits : data.toNat + length.toNat < 2 ^ 32) (s : State) :
    let n := bytesToProcess length
    ∃ s₁ cs, encodeLoop heap mem data length s = encodeLoop heap mem (data + n) (length - n) s₁ ∧
      Does heap s s₁ cs (offsetsFrom data.toNat n.toNat) ∧
      ∀ b, Timelapse.encodeLoop heap (slice mem data.toNat length.toNat) b =
        Timelapse.encodeLoop heap (slice mem (data + n).toNat (length - n).toNat)
          (b.appendEach heap cs) := by
  intro n
  have hpos' : 0 < length.toNat := UInt32.lt_iff_toNat_lt.mp hpos
  have hn : n.toNat = min length.toNat 3 := toNat_bytesToProcess length
  have hdata : (data + n).toNat = data.toNat + n.toNat := toNat_add (by omega)
  have hlength : (length - n).toNat = length.toNat - n.toNat := toNat_sub (by omega)
  have htake : (offsets data n).map mem = (slice mem data.toNat length.toNat).take n.toNat := by
    rw [offsets_eq, slice_take, Nat.min_eq_right (by omega)]
    rfl
  have hmin : (if length.toNat < 3 then length.toNat else 3) = n.toNat := by
    rw [hn]
    split <;> omega
  rw [encodeLoop, if_pos hpos]
  simp only [show bytesToProcess length = n from rfl, htake]
  generalize hchars : charArray4 _ _ _ = chars
  have hlen : chars.length = 4 := by
    rw [← hchars]
    rfl
  have hle : ∀ c ∈ chars, c.toNat ≤ 63 := by
    rw [← hchars]
    exact charArray4_le _ _ _
  have hcopy := @Does.log heap s _ (copyOps_safe (n := n) (by omega) hfits) (chunks_copyOps _ _ _)
  have hpass := (hcopy.trans (forLoop_does hlen hle (n := n) (by omega) 0 (Nat.zero_le _) _)).trans
    (padLoop_does n (by omega) _)
  rw [reads_copyOps, List.append_nil, List.append_nil] at hpass
  refine ⟨_, _, rfl, hpass, fun b => ?_⟩
  rw [Timelapse.encodeLoop, if_pos (by rw [slice_length]; omega)]
  simp only [slice_length, hmin, hchars]
  rw [slice_drop, hdata, hlength, appendEach_appendEach]
  rfl

/-- The loop of `base64EncodeChunked` reads its data once, in order, and builds what
`Timelapse.encodeLoop` builds of them. -/
theorem encodeLoop_spec (mem : UInt32 → UInt8) (data length : UInt32)
    (hfits : data.toNat + length.toNat < 2 ^ 32) (s : State) :
    (encodeLoop heap mem data length s).out =
        Timelapse.encodeLoop heap (slice mem data.toNat length.toNat) s.out ∧
      Logs s.ops (encodeLoop heap mem data length s).ops
        (offsetsFrom data.toNat length.toNat) 0 := by
  obtain ⟨k, hk⟩ : ∃ k, length.toNat = k := ⟨_, rfl⟩
  induction k using Nat.strong_induction_on generalizing data length s with
  | _ k ih =>
  by_cases hpos : 0 < length
  · have hpos' : 0 < length.toNat := UInt32.lt_iff_toNat_lt.mp hpos
    have hn := toNat_bytesToProcess length
    have hdata : (data + bytesToProcess length).toNat =
        data.toNat + (bytesToProcess length).toNat := toNat_add (by omega)
    have hlength : (length - bytesToProcess length).toNat =
        length.toNat - (bytesToProcess length).toNat := toNat_sub (by omega)
    obtain ⟨s₁, cs, heq, hpass, hsame⟩ := @encodeLoop_step heap mem data length hpos hfits s
    obtain ⟨hout, hrest⟩ := ih (length - bytesToProcess length).toNat (by omega)
      (data + bytesToProcess length) (length - bytesToProcess length) (by omega) s₁ rfl
    rw [heq]
    refine ⟨?_, ?_⟩
    · rw [hout, hpass.out]
      exact (hsame s.out).symm
    · have hlogs := hpass.logs.trans hrest
      rw [hdata, hlength, ← offsetsFrom_add, Nat.add_sub_cancel' (by omega)] at hlogs
      exact hlogs
  · have hzero : length.toNat = 0 := by
      rw [UInt32.lt_iff_toNat_lt] at hpos
      exact Nat.eq_zero_of_not_pos hpos
    rw [encodeLoop, if_neg hpos, hzero, Timelapse.encodeLoop, if_neg (by simp)]
    exact ⟨rfl, .refl s.ops⟩

end Loops

/-- The image of `size` octets in the memory behind `buffer`. -/
def image (mem : UInt32 → UInt8) (size : UInt32) : Frame := ⟨0, slice mem 0 size.toNat⟩

/-- One chunk: the octets it encodes are the next ones, and what it appends is what
`Timelapse.chunkLoop` appends for it. -/
theorem chunkLoop_pass (E : Env) (mem : UInt32 → UInt8) {size processed : UInt32}
    (hlt : processed < size) (s : State) (w : World) :
    let n := chunkSize size processed
    ∃ s₁ w₁, chunkLoop E.heap mem size processed s = chunkLoop E.heap mem size (processed + n) s₁ ∧
      Logs s.ops s₁.ops (offsetsFrom processed.toNat n.toNat) 1 ∧
      Timelapse.chunkLoop E (image mem size) processed.toNat s.out w =
        Timelapse.chunkLoop E (image mem size) (processed + n).toNat s₁.out w₁ := by
  intro n
  have himage : (image mem size).len = size.toNat := slice_length mem 0 _
  have hsize := size.toNat_lt
  have hlt' : processed.toNat < size.toNat := UInt32.lt_iff_toNat_lt.mp hlt
  have hn : n.toNat = min (size.toNat - processed.toNat) 510 := toNat_chunkSize (Nat.le_of_lt hlt')
  have hnext : (processed + n).toNat = processed.toNat + n.toNat := toNat_add (by omega)
  have hchunk : chunkAt (image mem size) processed.toNat = slice mem processed.toNat n.toNat := by
    rw [chunkAt, image, slice_drop, Nat.zero_add, hn]
    exact slice_take mem _ _ _
  have hbegin : ∀ op ∈ [Op.sub size processed, .chunk processed n], op.Safe := by
    simp only [List.mem_cons, List.not_mem_nil, or_false, forall_eq_or_imp, forall_eq, Op.Safe]
    exact ⟨Nat.le_of_lt hlt', trivial⟩
  have hend : ∀ op ∈ [Op.add processed n], op.Safe := by
    simp only [List.mem_singleton, forall_eq, Op.Safe]
    omega
  obtain ⟨hout, hlogs⟩ := @encodeLoop_spec E.heap mem processed n (by omega)
    ⟨⟨[], s.out.appends⟩, s.ops ++ [.sub size processed, .chunk processed n]⟩
  have hall := ((Logs.log s.ops hbegin).trans hlogs).trans (.log _ hend)
  have hstep := @chunkLoop_step E (image mem size) processed.toNat (by rwa [himage]) s.out w
  rw [hchunk, slice_length, ← hnext, appendChunk, base64EncodeChunked, ← hout] at hstep
  rw [chunkLoop, if_pos hlt]
  refine ⟨_, _, rfl, ?_, hstep⟩
  exact List.append_nil (offsetsFrom processed.toNat n.toNat) ▸ hall

/-- The chunk loop encodes every octet of the rest once, in order, and builds what
`Timelapse.chunkLoop` builds. -/
theorem chunkLoop_spec (E : Env) (mem : UInt32 → UInt8) (size processed : UInt32)
    (hle : processed.toNat ≤ size.toNat) (s : State) (w : World) :
    (chunkLoop E.heap mem size processed s).out =
        (Timelapse.chunkLoop E (image mem size) processed.toNat s.out w).1 ∧
      Logs s.ops (chunkLoop E.heap mem size processed s).ops
        (offsetsFrom processed.toNat (size.toNat - processed.toNat))
        ((size.toNat - processed.toNat + 509) / 510) := by
  have hsize := size.toNat_lt
  obtain ⟨k, hk⟩ : ∃ k, size.toNat - processed.toNat = k := ⟨_, rfl⟩
  induction k using Nat.strong_induction_on generalizing processed s w with
  | _ k ih =>
  by_cases hlt : processed < size
  · have hlt' : processed.toNat < size.toNat := UInt32.lt_iff_toNat_lt.mp hlt
    have hn := toNat_chunkSize hle
    have hnext : (processed + chunkSize size processed).toNat =
        processed.toNat + (chunkSize size processed).toNat := toNat_add (by omega)
    have hrest : size.toNat - processed.toNat = (chunkSize size processed).toNat +
        (size.toNat - (processed + chunkSize size processed).toNat) := by omega
    obtain ⟨s₁, w₁, heq, hlogs, hsame⟩ := chunkLoop_pass E mem hlt s w
    obtain ⟨hout, hlogs'⟩ := ih (size.toNat - (processed + chunkSize size processed).toNat)
      (by omega) (processed + chunkSize size processed) (by omega) s₁ w₁ rfl
    rw [heq, hsame]
    refine ⟨hout, ?_⟩
    have hcount : 1 + (size.toNat - (processed + chunkSize size processed).toNat + 509) / 510 =
        (size.toNat - processed.toNat + 509) / 510 := by omega
    have hall := hlogs.trans hlogs'
    rw [hcount, hnext, ← offsetsFrom_add, ← hnext, ← hrest] at hall
    exact hall
  · have hge : size.toNat ≤ processed.toNat := by
      rw [UInt32.lt_iff_toNat_lt] at hlt
      omega
    have hdone : (image mem size).len ≤ processed.toNat := by
      rwa [Frame.len, image, slice_length]
    rw [chunkLoop, if_neg hlt, chunkLoop_done hdone, Nat.sub_eq_zero_of_le hge]
    exact ⟨rfl, .refl s.ops⟩

/-- For every buffer and every size the loops end, after one chunk for each 510 octets begun. They
read the octets of the image once, in order, and no others; no index leaves its array and no size
wraps. So they build what `Timelapse.chunkLoop` builds. -/
theorem loops_safe (E : Env) (mem : UInt32 → UInt8) (size : UInt32) (postData : Builder UInt8)
    (w : World) :
    let s := chunkLoop E.heap mem size 0 ⟨postData, []⟩
    (chunks s.ops).length = (size.toNat + 509) / 510 ∧
      (reads s.ops).map UInt32.toNat = List.range size.toNat ∧
      (∀ op ∈ s.ops, op.Safe) ∧
      s.out = (Timelapse.chunkLoop E (image mem size) 0 postData w).1 := by
  obtain ⟨hout, hlogs⟩ := chunkLoop_spec E mem size 0 (Nat.zero_le _) ⟨postData, []⟩ w
  obtain ⟨new, hops, hsafe, hreads, hchunks⟩ := hlogs.added
  rw [List.nil_append] at hops
  subst hops
  rw [UInt32.toNat_zero, Nat.sub_zero] at hreads hchunks
  refine ⟨hchunks, ?_, hsafe, hout⟩
  rw [hreads, offsetsFrom_toNat (by have := size.toNat_lt; omega),
    List.range_eq_range']

end Machine
end Timelapse
end TimerCam

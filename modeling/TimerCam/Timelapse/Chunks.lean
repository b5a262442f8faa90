import Mathlib.Data.List.Chain
import TimerCam.Timelapse.Upload

/-!
# Timelapse.Chunks

The chunk loop of `uploadToGoogleDrive` for any chunk size, and its pauses.

* `encodeSlices_iff` : slice by slice is one-shot exactly when the slices are multiples of 3.
* `pausesOften_iff`  : the pauses come often enough only for images that need none.
-/

namespace TimerCam
namespace Timelapse

open Octets

/-! ## Slices of any size -/

/-- The loop of `uploadToGoogleDrive` with slices of `chunk` octets: what `base64EncodeChunked`
returns for them, one after the other. -/
def encodeSlices (chunk : Nat) (hchunk : 0 < chunk) (buffer : Bytes) (processed : Nat) : Bytes :=
  if processed < buffer.length then
    let chunkSize := if buffer.length - processed > chunk then chunk else buffer.length - processed
    encoded ((buffer.drop processed).take chunkSize) ++
      encodeSlices chunk hchunk buffer (processed + chunkSize)
  else []
termination_by buffer.length - processed
decreasing_by split <;> omega

section Slices

variable {chunk : Nat} {hchunk : 0 < chunk} {buffer : Bytes} {processed : Nat}

/-- One pass, in terms of the slice alone. -/
theorem encodeSlices_step (h : processed < buffer.length) :
    encodeSlices chunk hchunk buffer processed =
      Base64.encode ((buffer.drop processed).take chunk) ++
        encodeSlices chunk hchunk buffer
          (processed + ((buffer.drop processed).take chunk).length) := by
  have hlen : ((buffer.drop processed).take chunk).length =
      if buffer.length - processed > chunk then chunk else buffer.length - processed := by
    rw [List.length_take, List.length_drop]
    split <;> omega
  have htake : (buffer.drop processed).take ((buffer.drop processed).take chunk).length =
      (buffer.drop processed).take chunk := by
    rw [List.length_take, ← List.take_take, List.take_length]
  rw [encodeSlices, if_pos h]
  simp only [← hlen, htake, encoded_eq]

theorem encodeSlices_done (h : buffer.length ≤ processed) :
    encodeSlices chunk hchunk buffer processed = [] := by
  rw [encodeSlices, if_neg (by omega)]

theorem encodeSlices_of_dvd (h3 : 3 ∣ chunk) :
    encodeSlices chunk hchunk buffer processed = Base64.encode (buffer.drop processed) := by
  induction hn : buffer.length - processed using Nat.strong_induction_on generalizing processed with
  | _ n ih =>
  by_cases h : processed < buffer.length
  · have hpos : 0 < ((buffer.drop processed).take chunk).length := by
      rw [List.length_take, List.length_drop]
      omega
    rw [encodeSlices_step h, ih _ (by omega) rfl, Base64.encode_slice h3 (buffer.drop processed),
      List.drop_drop]
  · rw [encodeSlices_done (by omega), List.drop_eq_nil_of_le (by omega)]
    rfl

/-- One octet more than a slice: two encodings are longer than one, unless the slice ends between
two groups. -/
theorem encodeSlices_length_succ (hlen : buffer.length = chunk + 1) :
    (encodeSlices chunk hchunk buffer 0).length = 4 * ((chunk + 2) / 3) + 4 := by
  have hfirst : ((buffer.drop 0).take chunk).length = chunk := by
    rw [List.length_take, List.length_drop]
    omega
  have hsecond : ((buffer.drop (0 + chunk)).take chunk).length = 1 := by
    rw [List.length_take, List.length_drop]
    omega
  rw [encodeSlices_step (by omega), hfirst, encodeSlices_step (by omega), hsecond,
    encodeSlices_done (by omega), List.append_nil, List.length_append, Base64.encode_length,
    Base64.encode_length, hfirst, hsecond]

end Slices

/-- The loop of the source, when all appends find memory. -/
theorem chunkLoop_slices {E : Env} (hheap : ∀ k, E.heap k = true) (fb : Frame)
    (postData : Builder UInt8) (w : World) :
    (chunkLoop E fb 0 postData w).1.text =
      postData.text ++ escape (encodeSlices CHUNK_SIZE (by decide) fb.buf 0) := by
  rw [(chunkLoop_adds E fb 0 postData w).all fun k _ _ => hheap k,
    encodeSlices_of_dvd (by decide)]

/-- Encoding a buffer in slices of `chunk` octets is encoding it at once, for all buffers, exactly
when `chunk` is a multiple of 3. The slices of `CHUNK_SIZE` octets are, and so the loop appends the
encoding of the whole image, escaped. -/
theorem encodeSlices_iff (chunk : Nat) (hchunk : 0 < chunk) :
    ((∀ buffer, encodeSlices chunk hchunk buffer 0 = encoded buffer) ↔ 3 ∣ chunk) ∧
      (∀ buffer, encodeSlices CHUNK_SIZE (by decide) buffer 0 = encoded buffer) ∧
      ∀ (E : Env) (fb : Frame) (postData : Builder UInt8) (w : World),
        (∀ k, E.heap k = true) →
        (chunkLoop E fb 0 postData w).1.text =
          postData.text ++ escape (encodeSlices CHUNK_SIZE (by decide) fb.buf 0) := by
  have hof : ∀ c (hc : 0 < c), 3 ∣ c → ∀ buffer, encodeSlices c hc buffer 0 = encoded buffer := by
    intro c hc h3 buffer
    rw [encodeSlices_of_dvd h3, encoded_eq]
    rfl
  refine ⟨⟨fun h => ?_, hof chunk hchunk⟩, hof CHUNK_SIZE (by decide) (by decide),
    fun E fb postData w hheap => chunkLoop_slices hheap fb postData w⟩
  have hlen : (List.replicate (chunk + 1) (0 : UInt8)).length = chunk + 1 := List.length_replicate
  have htwo := @encodeSlices_length_succ chunk hchunk _ hlen
  rw [h, encoded_eq, Base64.encode_length, hlen] at htwo
  omega

theorem encodeSlices_iff_four :
    ((∀ buffer, encodeSlices 4 (by decide) buffer 0 = encoded buffer) ↔ 3 ∣ 4) ∧
      (∀ buffer, encodeSlices CHUNK_SIZE (by decide) buffer 0 = encoded buffer) ∧
      ∀ (E : Env) (fb : Frame) (postData : Builder UInt8) (w : World),
        (∀ k, E.heap k = true) →
        (chunkLoop E fb 0 postData w).1.text =
          postData.text ++ escape (encodeSlices CHUNK_SIZE (by decide) fb.buf 0) :=
  encodeSlices_iff 4 (by decide)

/-! ## Pauses -/

/-- Where the loop paused: the octets processed by then. -/
def pauses (tr : List Ev) : List Nat :=
  tr.filterMap fun e => match e with
    | .progress processed _ => some processed
    | _ => none

/-- From the start to the first pause, from pause to pause and from the last to the end of the loop
it is never more than 3072 octets and a chunk. -/
def PausesOften (size : Nat) (ps : List Nat) : Prop :=
  (0 :: ps ++ [size]).IsChain fun a b => b ≤ a + (3072 + CHUNK_SIZE)

instance (size : Nat) (ps : List Nat) : Decidable (PausesOften size ps) :=
  inferInstanceAs (Decidable (List.IsChain _ _))

/-- A place where the loop may pause: the end of a chunk, at a multiple of 3072. -/
structure PauseAt (size q : Nat) : Prop where
  mod : q % 3072 = 0
  pos : 0 < q
  le : q ≤ size
  border : CHUNK_SIZE ∣ q ∨ q = size

/-- What the loop adds to the trace: delays, and pauses where it may pause. -/
def Pausing (size : Nat) (new : List Ev) : Prop :=
  (∀ e ∈ new, e.idle) ∧ ∀ q ∈ pauses new, PauseAt size q

theorem pauses_append (a b : List Ev) : pauses (a ++ b) = pauses a ++ pauses b :=
  List.filterMap_append

theorem Pausing.append {size : Nat} {a b : List Ev} (ha : Pausing size a) (hb : Pausing size b) :
    Pausing size (a ++ b) := by
  refine ⟨fun e he => ?_, fun q hq => ?_⟩
  · rcases List.mem_append.mp he with he | he
    · exact ha.1 e he
    · exact hb.1 e he
  · rw [pauses_append] at hq
    rcases List.mem_append.mp hq with hq | hq
    · exact ha.2 q hq
    · exact hb.2 q hq

theorem afterChunk_pausing {fb : Frame} {processed : Nat} (hpos : 0 < processed)
    (hle : processed ≤ fb.len) (hborder : CHUNK_SIZE ∣ processed ∨ processed = fb.len) (w : World) :
    ∃ new, (afterChunk fb processed w).trace = w.trace ++ new ∧ Pausing fb.len new := by
  unfold afterChunk
  split
  · rename_i hmod
    refine ⟨[.progress processed fb.len, .delay w.reads.tick 10], List.append_assoc _ _ _, ?_, ?_⟩
    · simp [Ev.idle]
    · intro q hq
      obtain rfl := List.mem_singleton.mp hq
      exact ⟨hmod, hpos, hle, hborder⟩
  · exact ⟨[], (List.append_nil _).symm, by simp, by simp [pauses]⟩

/-- The loop starts its passes at multiples of `CHUNK_SIZE`, up to the end. -/
theorem chunkLoop_pausing (E : Env) (fb : Frame) {processed : Nat}
    (hstart : CHUNK_SIZE ∣ processed ∨ fb.len ≤ processed) (postData : Builder UInt8) (w : World) :
    ∃ new, (chunkLoop E fb processed postData w).2.trace = w.trace ++ new ∧ Pausing fb.len new := by
  revert hstart
  refine chunkLoop_rule (I := fun processed _ w r => CHUNK_SIZE ∣ processed ∨ fb.len ≤ processed →
    ∃ new, r.2.trace = w.trace ++ new ∧ Pausing fb.len new) ?_ ?_ processed postData w
  · intro processed postData w _ _
    exact ⟨[], (List.append_nil _).symm, by simp, by simp [pauses]⟩
  · intro processed postData w r h ih hstart
    have hdvd : CHUNK_SIZE ∣ processed := hstart.resolve_right (by omega)
    have hpos := chunkAt_pos h
    have hlen := chunkAt_length fb processed
    have hend : CHUNK_SIZE ∣ processed + (chunkAt fb processed).length ∨
        processed + (chunkAt fb processed).length = fb.len := by
      split at hlen
      · rw [hlen]
        exact .inl (Nat.dvd_add_self_right.mpr hdvd)
      · right
        omega
    have hle : processed + (chunkAt fb processed).length ≤ fb.len := by
      split at hlen
      · omega
      · omega
    obtain ⟨new₁, e₁, h₁⟩ := afterChunk_pausing (by omega) hle hend w
    obtain ⟨new₂, e₂, h₂⟩ := ih (hend.imp_right fun h => Nat.le_of_eq h.symm)
    exact ⟨new₁ ++ new₂, by rw [e₂, e₁, List.append_assoc], h₁.append h₂⟩

/-- Only at the end of the image can a pause come within the first 3582 octets: 3072 is no multiple
of 510. -/
theorem PauseAt.eq_size {size q : Nat} (h : PauseAt size q) (hq : q ≤ 3072 + CHUNK_SIZE) :
    q = size := by
  obtain ⟨hmod, hpos, -, hborder⟩ := h
  refine hborder.resolve_left fun hdvd => ?_
  unfold CHUNK_SIZE at hq hdvd
  omega

theorem pausesOften_of_le {size : Nat} {ps : List Nat} (hps : ∀ q ∈ ps, PauseAt size q)
    (hsize : size ≤ 3072 + CHUNK_SIZE) : PausesOften size ps := by
  have hall : ∀ b ∈ ps ++ [size], b ≤ 3072 + CHUNK_SIZE := by
    intro b hb
    rcases List.mem_append.mp hb with hb | hb
    · exact Nat.le_trans (hps b hb).le hsize
    · rwa [List.mem_singleton.mp hb]
  have hpairwise : (0 :: ps ++ [size]).Pairwise fun a b => b ≤ a + (3072 + CHUNK_SIZE) := by
    refine List.pairwise_cons.mpr ⟨fun b hb => ?_, ?_⟩
    · exact Nat.le_add_left_of_le (hall b hb)
    · exact List.pairwise_of_forall_mem_list fun a _ b hb => Nat.le_add_left_of_le (hall b hb)
  exact hpairwise.isChain

theorem not_pausesOften {size : Nat} {ps : List Nat} (hps : ∀ q ∈ ps, PauseAt size q)
    (hsize : 3072 + CHUNK_SIZE < size) : ¬ PausesOften size ps := by
  intro h
  unfold PausesOften at h
  cases ps with
  | nil =>
    have := (List.isChain_cons_cons.mp h).1
    omega
  | cons q ps =>
    have hq : q ≤ 0 + (3072 + CHUNK_SIZE) := (List.isChain_cons_cons.mp h).1
    have := (hps q (List.mem_cons_self ..)).eq_size (by omega)
    omega

theorem pauses_sendEvents (E : Env) (k : Nat) (url postData : Bytes) :
    pauses (sendEvents E k url postData) = [] := by
  unfold sendEvents
  split
  · rfl
  · rfl

theorem upload_pausing (E : Env) (fb : Frame) (fileName folderPath : Bytes) (w : World) :
    ∃ new, (uploadToGoogleDrive E fb fileName folderPath w).2.trace = w.trace ++ new ∧
      ∀ q ∈ pauses new, PauseAt fb.len q := by
  obtain ⟨w', -, htr, he⟩ := upload_trace E fb fileName folderPath w
  obtain ⟨new, hnew, -, hpause⟩ := chunkLoop_pausing E fb (.inl (Nat.dvd_zero CHUNK_SIZE))
    (head E.heap w.appends fileName folderPath) (w.emit (.upload fileName folderPath))
  let body := postedBody E fb fileName folderPath w
  refine ⟨.upload fileName folderPath :: new ++ sendEvents E w'.posts GOOGLE_SCRIPT_URL body,
    ?_, ?_⟩
  · rw [he, sendPostData_trace, htr, hnew]
    simp [World.emit, body]
  · rw [pauses_append, pauses_sendEvents, List.append_nil]
    exact hpause

/-- While an image is encoded the pauses come often enough exactly when it has at most 3582 octets,
and then none is needed: 3072 and 510 first meet at 261120. -/
theorem pausesOften_iff (E : Env) (fb : Frame) (fileName folderPath : Bytes) (w : World) :
    ∃ new, (uploadToGoogleDrive E fb fileName folderPath w).2.trace = w.trace ++ new ∧
      (PausesOften fb.len (pauses new) ↔ fb.len ≤ 3072 + CHUNK_SIZE) := by
  obtain ⟨new, htr, hps⟩ := upload_pausing E fb fileName folderPath w
  refine ⟨new, htr, ⟨fun h => ?_, pausesOften_of_le hps⟩⟩
  by_contra hsize
  exact not_pausesOften hps (by omega) h

/-- An image of 4000 octets is encoded in one stretch. -/
theorem long_stretch :
    ∃ (fb : Frame) (E : Env) (fileName folderPath : Bytes) (new : List Ev), fb.len = 4000 ∧
      (uploadToGoogleDrive E fb fileName folderPath {}).2.trace = [] ++ new ∧
      ¬ PausesOften fb.len (pauses new) := by
  let fb : Frame := ⟨0, List.replicate 4000 0⟩
  let E : Env :=
    { wifi := fun _ => true, uptime := fun _ => 0, clock := fun _ => 0, patience := fun _ => 0,
      camera := fun _ => none, heap := fun _ => true, post := fun _ => ⟨200, []⟩,
      stale := fun _ => [] }
  have hlen : fb.len = 4000 := List.length_replicate
  obtain ⟨new, htr, hps⟩ := upload_pausing E fb (text "image.jpg") (text "image") {}
  refine ⟨fb, E, text "image.jpg", text "image", new, hlen, htr, not_pausesOften hps ?_⟩
  rw [hlen]
  decide

end Timelapse
end TimerCam

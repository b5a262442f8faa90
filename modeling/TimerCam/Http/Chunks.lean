import TimerCam.Http.Body

/-!
# Http.Chunks

A body in chunks.

* `timedRead_frame`   : octets of a size line are taken one by one, also when they come late.
* `chunked_read_back` : the data of all chunks is read, and nothing of their frame.
* `sizeRead_letters`  : in a size line every hexadecimal digit counts, wherever it stands.
-/

namespace TimerCam
namespace Http
namespace HttpClient

open Octets Wire

/-! ## Size lines -/

/-- What an octet of a size line makes of the number before it. -/
def sizeStep (n : Int) (c : UInt8) : Int :=
  match UrlForm.hex? c with
  | some d => int32 (n * 16 + d)
  | none => n

def sizeRead (n : Int) (s : Bytes) : Int := s.foldl sizeStep n

def hexValue (n : Nat) (s : Bytes) : Nat :=
  s.foldl (fun n c => n * 16 + (UrlForm.hex? c).getD 0) n

theorem le_hexValue (n : Nat) (s : Bytes) : n ≤ hexValue n s := by
  induction s generalizing n with
  | nil => exact Nat.le_refl _
  | cons c s ih =>
    refine Nat.le_trans ?_ (ih (n * 16 + (UrlForm.hex? c).getD 0))
    omega

theorem sizeRead_digits {s : Bytes} (hs : ∀ c ∈ s, UrlForm.hex? c ≠ none) {n : Nat}
    (hlt : hexValue n s < 2 ^ 31) : sizeRead n s = hexValue n s := by
  induction s generalizing n with
  | nil => rfl
  | cons c s ih =>
    obtain ⟨d, hd⟩ := Option.ne_none_iff_exists'.mp (hs c (List.mem_cons_self ..))
    have hval : hexValue n (c :: s) = hexValue (n * 16 + d) s := by
      rw [hexValue, List.foldl_cons, hd]
      rfl
    rw [hval] at hlt ⊢
    have hle := le_hexValue (n * 16 + d) s
    have hstep : sizeStep n c = (n * 16 + d : Nat) := by
      rw [sizeStep, hd]
      exact int32_of_lt (Nat.lt_of_le_of_lt hle hlt)
    rw [sizeRead, List.foldl_cons, hstep]
    exact ih (fun c hc => hs c (List.mem_cons_of_mem _ hc)) hlt

/-- Other octets do not count. -/
theorem sizeRead_other {s : Bytes} (hs : ∀ c ∈ s, UrlForm.hex? c = none) (n : Int) :
    sizeRead n s = n := by
  induction s generalizing n with
  | nil => rfl
  | cons c s ih =>
    have hstep : sizeStep n c = n := by rw [sizeStep, hs c (List.mem_cons_self ..)]
    rw [sizeRead, List.foldl_cons, hstep]
    exact ih (fun c hc => hs c (List.mem_cons_of_mem _ hc)) n

theorem sizeRead_append (n : Int) (s t : Bytes) :
    sizeRead n (s ++ t) = sizeRead (sizeRead n s) t := List.foldl_append

theorem chunkLengthLoop_octet {c : UInt8} (hc : c ≠ 10) (n : Int) (w : List Item) :
    chunkLengthLoop n (.octet c :: w) = chunkLengthLoop (sizeStep n c) w := by
  rw [chunkLengthLoop, if_neg hc, sizeStep]
  by_cases hcr : c = 13
  · rw [if_pos hcr, hcr]
    rfl
  · rw [if_neg hcr]
    cases UrlForm.hex? c with
    | none => rfl
    | some d => rfl

/-- The loop over a whole size line reads its number, and stops behind it. -/
theorem chunkLengthLoop_line {s : Bytes} (hs : 10 ∉ s) (n : Int) (w : List Item) :
    chunkLengthLoop n (ready s ++ .octet 10 :: w) = ((sizeRead n s, true), w) := by
  induction s generalizing n with
  | nil => rfl
  | cons c s ih =>
    have hc : c ≠ 10 := fun he => hs (he ▸ List.mem_cons_self ..)
    rw [ready_cons, List.cons_append, chunkLengthLoop_octet hc,
      ih fun hmem => hs (List.mem_cons_of_mem _ hmem)]
    rfl

/-! ## Reading -/

section Frame

variable {h : HttpClient} (hc : h.iIsChunked = true)
include hc

theorem read_chunked : h.read =
    if h.readChunkLength.availableHere.1 = 0 then (none, h.readChunkLength.availableHere.2)
    else h.readChunkLength.availableHere.2.takeOctet := by
  rw [read, hc]
  rfl

section Size

variable (hs : h.iState = .eReadingChunkLength)
include hs

theorem read_size_none (hw : Wire.available h.rx = 0) : h.read = (none, h) := by
  have hloop : chunkLengthLoop h.iChunkLength h.rx = ((h.iChunkLength, false), h.rx) := by
    cases hrx : h.rx with
    | nil => rfl
    | cons i w =>
      cases i with
      | octet c =>
        rw [hrx] at hw
        cases hw
      | pause ms => rfl
  have hsame : h.readChunkLength = h := by
    rw [readChunkLength, if_pos hs, hloop, ← hs]
    rfl
  have hav : h.availableHere = (0, h) := by simp [availableHere, hs]
  rw [read_chunked hc, hsame, hav, if_pos rfl]

theorem read_size_octet {c : UInt8} (h10 : c ≠ 10) {w : List Item} (hrx : h.rx = .octet c :: w) :
    h.read = { h with iChunkLength := sizeStep h.iChunkLength c, rx := w }.read := by
  have hsame : h.readChunkLength =
      { h with iChunkLength := sizeStep h.iChunkLength c, rx := w }.readChunkLength := by
    simp only [readChunkLength, hs, if_true, hrx, chunkLengthLoop_octet h10]
  rw [read_chunked hc, hsame, read_chunked]
  exact hc

omit hc in
theorem readChunkLength_lf {w : List Item} (hrx : h.rx = .octet 10 :: w) :
    h.readChunkLength = { h with iState := .eReadingBodyChunk, rx := w } := by
  have hloop : chunkLengthLoop h.iChunkLength h.rx = ((h.iChunkLength, true), w) := by
    rw [hrx]
    rfl
  rw [readChunkLength, if_pos hs, hloop]
  rfl

/-- The end of the line of the last chunk, or of a chunk's data. -/
theorem read_size_lf {w : List Item} (hrx : h.rx = .octet 10 :: w) (hz : h.iChunkLength = 0) :
    h.read = (none, { h with rx := w }) := by
  have hav : ({ h with iState := .eReadingBodyChunk, rx := w } : HttpClient).availableHere =
      (0, { h with rx := w }) := by
    simp [availableHere, hz, ← hs]
  rw [read_chunked hc, readChunkLength_lf hs hrx, hav, if_pos rfl]

theorem read_size_end {w : List Item} (hrx : h.rx = .octet 10 :: w) :
    h.read = { h with iState := .eReadingBodyChunk, rx := w }.read := by
  have hsame : ({ h with iState := .eReadingBodyChunk, rx := w } : HttpClient).readChunkLength =
      { h with iState := .eReadingBodyChunk, rx := w } := by
    rw [readChunkLength, if_neg (by simp)]
  rw [read_chunked hc, readChunkLength_lf hs hrx, read_chunked, hsame]
  exact hc

/-- Octets of a size line are taken one by one, also when they come late. -/
theorem timedRead_frame {f : Bytes} (h10 : 10 ∉ f) {t : Nat} (ht : t < timeout)
    {s : List (UInt8 × Bool)} {rest : List Item}
    (hw : Carries timeout t h.rx (marked false f ++ s) rest) :
    ∃ t' w, t' < timeout ∧ Carries timeout t' w s rest ∧ h.timedRead t =
      { h with iChunkLength := sizeRead h.iChunkLength f, rx := w }.timedRead t' := by
  induction f generalizing h t with
  | nil => exact ⟨t, h.rx, ht, hw, rfl⟩
  | cons x f ih =>
    simp only [List.mem_cons, not_or] at h10
    obtain ⟨t₁, w, ht₁, hw₁, he⟩ := timedRead_await
      (fun w hz => read_size_none (h := { h with rx := w }) hc hs hz) ht hw
    obtain ⟨t₂, w₂, ht₂, hw₂, he₂⟩ := ih
      (h := { h with iChunkLength := sizeStep h.iChunkLength x, rx := w }) hc hs h10.2 ht₁ hw₁
    refine ⟨t₂, w₂, ht₂, hw₂, he.trans (Eq.trans ?_ he₂)⟩
    exact timedRead_congr
      (read_size_octet (h := { h with rx := .octet x :: w }) hc hs (Ne.symm h10.1) rfl) t₁

/-- After its line feed the line of the last chunk, or of a chunk's data, is forgotten. -/
theorem timedRead_lf {t : Nat} (ht : t < timeout) (hz : h.iChunkLength = 0)
    {s : List (UInt8 × Bool)} {rest : List Item}
    (hw : Carries timeout t h.rx (marked false [10] ++ s) rest) :
    ∃ t' w, t' < timeout ∧ Carries timeout t' w s rest ∧ h.timedRead t =
      { h with rx := w }.timedRead t' := by
  have hnone := fun w hz => read_size_none (h := { h with rx := w }) hc hs hz
  obtain ⟨t₁, w, ht₁, hw₁, he⟩ := timedRead_await hnone ht hw
  refine ⟨t₁, w, ht₁, hw₁, ?_⟩
  have hlf := read_size_lf (h := { h with rx := .octet 10 :: w }) hc hs rfl hz
  rw [he, timedRead_eq t₁ { h with rx := .octet 10 :: w }, hlf]
  -- without an octet after the line feed, `read` would have answered the same there
  cases w with
  | nil => rw [timedRead_eq t₁ { h with rx := [] }, hnone [] rfl]
  | cons i w =>
    cases i with
    | octet d => rfl
    | pause ms => rw [timedRead_eq t₁ { h with rx := .pause ms :: w }, hnone (.pause ms :: w) rfl]

/-- After the line feed of its size the data of a chunk is due. -/
theorem timedRead_size_end {t : Nat} (ht : t < timeout) {s : List (UInt8 × Bool)} {rest : List Item}
    (hw : Carries timeout t h.rx (marked false [10] ++ s) rest) :
    ∃ t' w, t' < timeout ∧ Carries timeout t' w s rest ∧ h.timedRead t =
      { h with iState := .eReadingBodyChunk, rx := w }.timedRead t' := by
  obtain ⟨t₁, w, ht₁, hw₁, he⟩ := timedRead_await
    (fun w hz => read_size_none (h := { h with rx := w }) hc hs hz) ht hw
  exact ⟨t₁, w, ht₁, hw₁, he.trans
    (timedRead_congr (read_size_end (h := { h with rx := .octet 10 :: w }) hc hs rfl) t₁)⟩

end Size

/-! ### The data of a chunk -/

section Data

variable (hs : h.iState = .eReadingBodyChunk)
include hs

theorem read_data {n : Nat} (hn : h.iChunkLength = (n + 1 : Nat)) : h.read =
    if Wire.available h.rx = 0 then (none, h) else h.takeOctet := by
  have hsame : h.readChunkLength = h := by
    rw [readChunkLength, if_neg (by rw [hs]; simp)]
  have hav : h.availableHere = (min (Wire.available h.rx : Int) (n + 1 : Nat), h) := by
    have hne : ¬ (h.iState = .eReadingBodyChunk ∧ h.iChunkLength = 0) := by
      rw [hn]
      rintro ⟨-, h0⟩
      omega
    simp only [availableHere, if_neg hne]
    rw [if_neg (by rw [hs]; simp), if_pos hs, hn]
  rw [read_chunked hc, hsame, hav]
  by_cases hz : Wire.available h.rx = 0
  · rw [if_pos hz, if_pos (by simp only [hz]; omega)]
  · rw [if_neg hz, if_neg (by simp only; omega)]

theorem timedRead_data (hl : h.iContentLength ≤ 0) {n : Nat} (hn : h.iChunkLength = (n + 1 : Nat))
    (hfits : n < 2 ^ 31) {t : Nat} (ht : t < timeout) {c : UInt8} {s : List (UInt8 × Bool)}
    {rest : List Item} (hw : Carries timeout t h.rx ((c, true) :: s) rest) :
    ∃ w, Carries timeout 0 w s rest ∧ h.timedRead t = (some c, { h with
      iState := if n = 0 then .eReadingChunkLength else .eReadingBodyChunk
      iChunkLength := n, rx := w }) := by
  obtain ⟨t₁, w, -, hw₁, he⟩ := timedRead_await (fun w hz => by
    rw [read_data (h := { h with rx := w }) hc hs hn, if_pos hz]) ht hw
  refine ⟨w, hw₁, ?_⟩
  rw [he]
  refine timedRead_some ?_ t₁
  have hthere : Wire.available ({ h with rx := .octet c :: w } : HttpClient).rx ≠ 0 :=
    Nat.succ_ne_zero _
  rw [read_data (h := { h with rx := .octet c :: w }) hc hs hn, if_neg hthere]
  have hcount : countBody { h with rx := w } = { h with rx := w } :=
    if_neg fun hbad => absurd hbad.2 (by simp only; omega)
  have hdown : int32 (h.iChunkLength - 1) = n := by
    rw [hn, ← int32_of_lt hfits]
    congr 1
    omega
  have htake : ({ h with rx := .octet c :: w } : HttpClient).takeOctet =
      (some c, (countBody { h with rx := w }).countChunk) := rfl
  rw [htake, hcount, countChunk, if_pos hs]
  simp only [hdown, Int.natCast_eq_zero]

end Data

end Frame

/-! ## A body in chunks -/

/-- A chunk as it is sent: its size in hexadecimal digits, an extension, and its data. -/
structure Chunk where
  size : Bytes
  ext : Bytes
  data : Bytes

structure Chunk.Ok (c : Chunk) : Prop where
  digits : ∀ x ∈ c.size, UrlForm.hex? x ≠ none
  value : hexValue 0 c.size = c.data.length
  fits : c.data.length < 2 ^ 31
  ext : ∀ x ∈ c.ext, UrlForm.hex? x = none ∧ x ≠ 10

/-- The size line, up to its line feed. -/
def Chunk.line (c : Chunk) : Bytes := c.size ++ (c.ext ++ [13])

/-- A chunk on the wire; only the octets of its data start the clock again. -/
def Chunk.marks (c : Chunk) : List (UInt8 × Bool) :=
  marked false c.line ++ (marked false [10] ++ (marked true c.data ++
    (marked false [13] ++ marked false [10])))

theorem Chunk.Ok.size_read {c : Chunk} (h : c.Ok) :
    10 ∉ c.line ∧ sizeRead 0 c.line = c.data.length := by
  have hlf : UrlForm.hex? 10 = none := rfl
  refine ⟨?_, ?_⟩
  · simp only [line, List.mem_append, List.mem_singleton, not_or]
    exact ⟨fun hmem => h.digits 10 hmem hlf, fun hmem => (h.ext 10 hmem).2 rfl, by decide⟩
  · have hfits : hexValue 0 c.size < 2 ^ 31 := by
      rw [h.value]
      exact h.fits
    have hrest : ∀ x ∈ c.ext ++ [13], UrlForm.hex? x = none := by
      intro x hx
      rcases List.mem_append.mp hx with hx | hx
      · exact (h.ext x hx).1
      · rw [List.mem_singleton.mp hx]
        rfl
    have hsize := sizeRead_digits h.digits hfits
    rw [line, sizeRead_append, sizeRead_other hrest, ← h.value]
    exact hsize

/-- A chunked body is due, and its octets are not counted. -/
structure Ready (h : HttpClient) : Prop where
  state : h.iState = .eReadingChunkLength
  chunked : h.iIsChunked = true
  length : h.iContentLength ≤ 0
  consumed : h.iBodyLengthConsumed = 0
  size : h.iChunkLength = 0

theorem bodyFrom_congr {h h' : HttpClient} {t t' : Nat} (hr : h.timedRead t = h'.timedRead t')
    (heap : Nat → Bool) (bodyLength : Int) (response : Bytes) :
    h.bodyFrom heap bodyLength t response = h'.bodyFrom heap bodyLength t' response := by
  rw [bodyFrom, hr, bodyFrom]

section Loop

variable {heap : Nat → Bool} (hheap : ∀ k, heap k = true)
include hheap

theorem bodyFrom_data {h : HttpClient} (hc : h.iIsChunked = true) (hs : h.iState = .eReadingBodyChunk)
    (hl : h.iContentLength ≤ 0) (hk : h.iBodyLengthConsumed = 0) {data : Bytes} (hne : data ≠ [])
    (hn : h.iChunkLength = data.length) (hfits : data.length < 2 ^ 31) {t : Nat} (ht : t < timeout)
    {s : List (UInt8 × Bool)} {rest : List Item} (response : Bytes)
    (hw : Carries timeout t h.rx (marked true data ++ s) rest) :
    ∃ w, Carries timeout 0 w s rest ∧ h.bodyFrom heap (-1) t response =
      { h with iState := .eReadingChunkLength, iChunkLength := 0, rx := w }.bodyFrom heap (-1) 0
        (response ++ data) := by
  induction data generalizing h t response with
  | nil => exact absurd rfl hne
  | cons c data ih =>
    obtain ⟨w, hw', hread⟩ := timedRead_data hc hs hl hn (by rw [List.length_cons] at hfits; omega)
      ht hw
    have hgo : (0 : Int) ≠ -1 := by decide
    rw [bodyFrom_some hheap hread, bodyLoop_from (by rw [hk]; exact hgo)]
    cases data with
    | nil => exact ⟨w, hw', rfl⟩
    | cons d data =>
      obtain ⟨w', hw'', he⟩ := ih (h := { h with
        iState := .eReadingBodyChunk, iChunkLength := (d :: data).length, rx := w }) hc rfl hl hk
        (List.cons_ne_nil d data) rfl (by rw [List.length_cons] at hfits; omega) (by decide)
        (response ++ [c]) hw'
      refine ⟨w', hw'', ?_⟩
      rw [List.append_assoc] at he
      exact he

/-- A chunk adds its data. -/
theorem bodyFrom_chunk {h : HttpClient} (hr : Ready h) {c : Chunk} (hok : c.Ok) (hne : c.data ≠ [])
    {t : Nat} (ht : t < timeout) {s : List (UInt8 × Bool)} {rest : List Item} (response : Bytes)
    (hw : Carries timeout t h.rx (c.marks ++ s) rest) :
    ∃ t' w, t' < timeout ∧ Carries timeout t' w s rest ∧ h.bodyFrom heap (-1) t response =
      { h with rx := w }.bodyFrom heap (-1) t' (response ++ c.data) := by
  obtain ⟨h10, hsize⟩ := hok.size_read
  simp only [Chunk.marks, List.append_assoc] at hw
  obtain ⟨t₁, w₁, ht₁, hw₁, he₁⟩ := timedRead_frame hr.chunked hr.state h10 ht hw
  rw [hr.size, hsize] at he₁
  obtain ⟨t₂, w₂, ht₂, hw₂, he₂⟩ := timedRead_size_end
    (h := { h with iChunkLength := c.data.length, rx := w₁ }) hr.chunked hr.state ht₁ hw₁
  obtain ⟨w₃, hw₃, he₃⟩ := bodyFrom_data hheap
    (h := { h with iState := .eReadingBodyChunk, iChunkLength := c.data.length, rx := w₂ })
    hr.chunked rfl hr.length hr.consumed hne rfl hok.fits ht₂ response hw₂
  obtain ⟨t₄, w₄, ht₄, hw₄, he₄⟩ := timedRead_frame
    (h := { h with iState := .eReadingChunkLength, iChunkLength := 0, rx := w₃ }) hr.chunked rfl
    (by decide) (by decide) hw₃
  obtain ⟨t₅, w₅, ht₅, hw₅, he₅⟩ := timedRead_lf
    (h := { h with iState := .eReadingChunkLength, iChunkLength := 0, rx := w₄ }) hr.chunked rfl ht₄
    rfl hw₄
  refine ⟨t₅, w₅, ht₅, hw₅, ?_⟩
  have hback : ({ h with iState := .eReadingChunkLength, iChunkLength := 0, rx := w₅ } : HttpClient) =
      { h with rx := w₅ } := by rw [← hr.state, ← hr.size]
  rw [bodyFrom_congr (he₁.trans he₂), he₃, bodyFrom_congr (he₄.trans he₅), hback]

theorem bodyFrom_chunks {cs : List Chunk} (hcs : ∀ c ∈ cs, c.Ok ∧ c.data ≠ []) {h : HttpClient}
    (hr : Ready h) {t : Nat} (ht : t < timeout) {s : List (UInt8 × Bool)} {rest : List Item}
    (response : Bytes) (hw : Carries timeout t h.rx (cs.flatMap Chunk.marks ++ s) rest) :
    ∃ t' w, t' < timeout ∧ Carries timeout t' w s rest ∧ h.bodyFrom heap (-1) t response =
      { h with rx := w }.bodyFrom heap (-1) t' (response ++ cs.flatMap Chunk.data) := by
  induction cs generalizing h t response with
  | nil =>
    rw [List.flatMap_nil, List.append_nil]
    exact ⟨t, h.rx, ht, hw, rfl⟩
  | cons c cs ih =>
    obtain ⟨hok, hne⟩ := hcs c (List.mem_cons_self ..)
    rw [List.flatMap_cons, List.append_assoc] at hw
    obtain ⟨t₁, w₁, ht₁, hw₁, he₁⟩ := bodyFrom_chunk hheap hr hok hne ht response hw
    have hr₁ : Ready { h with rx := w₁ } := ⟨hr.state, hr.chunked, hr.length, hr.consumed, hr.size⟩
    obtain ⟨t₂, w₂, ht₂, hw₂, he₂⟩ := ih (fun c hc => hcs c (List.mem_cons_of_mem _ hc)) hr₁ ht₁
      (response ++ c.data) hw₁
    refine ⟨t₂, w₂, ht₂, hw₂, ?_⟩
    rw [he₁, he₂, List.flatMap_cons, List.append_assoc]

end Loop

/-- When nothing more comes, the time runs out. -/
theorem timedRead_silent {h : HttpClient} (hr : Ready h) (hw : Silent timeout h.rx) {t : Nat}
    (ht : t < timeout) : h.timedRead t = (none, { h with rx := h.rx.tail }) := by
  rcases hw with hnil | ⟨ms, w, hrx, hms, hperiod⟩
  · have hread := read_size_none hr.chunked hr.state (by rw [hnil]; rfl)
    rw [timedRead_eq, hread]
    simp only [hnil, List.tail_nil]
    rw [← hnil]
  · have hread := read_size_none hr.chunked hr.state (by rw [hrx]; rfl)
    rw [timedRead_eq, hread]
    simp only [hrx]
    rw [if_neg (by rw [Nat.mod_eq_of_lt (by omega)]; omega)]
    rfl

/-- The loop adds the data of all chunks, and ends after the silence. -/
theorem bodyLoop_chunks {heap : Nat → Bool} (hheap : ∀ k, heap k = true) {h : HttpClient}
    (hready : Ready h) {cs : List Chunk} (hcs : ∀ c ∈ cs, c.Ok ∧ c.data ≠ []) {last : Chunk}
    (hlast : last.Ok) (hend : last.data = []) {rest : List Item}
    (hb : Carries timeout 0 h.rx (cs.flatMap Chunk.marks ++ last.marks) rest)
    (hrest : Silent timeout rest) : h.bodyLoop heap (-1) [] =
      (some (cs.flatMap Chunk.data), { h with rx := rest.tail }) := by
  have hat : ∀ w, Ready { h with rx := w } := fun w =>
    ⟨hready.state, hready.chunked, hready.length, hready.consumed, hready.size⟩
  obtain ⟨t₁, w₁, ht₁, hw₁, he₁⟩ := bodyFrom_chunks hheap hcs hready (by decide) [] hb
  -- the last chunk has a size of zero, and is passed over like the end of a chunk's data
  have hkeep : ∀ {n : Int}, n = 0 → ∀ t w, ({ h with iChunkLength := n, rx := w }).timedRead t =
      { h with rx := w }.timedRead t := by
    rintro n rfl t w
    rw [← hready.size]
  obtain ⟨h10, hsize⟩ := hlast.size_read
  simp only [Chunk.marks, hend, marked_nil, List.nil_append] at hw₁
  obtain ⟨t₂, w₂, ht₂, hw₂, he₂⟩ := timedRead_frame (h := { h with rx := w₁ }) hready.chunked
    hready.state h10 ht₁ hw₁
  replace he₂ := he₂.trans (hkeep (by rw [hready.size, hsize, hend]; rfl) t₂ w₂)
  obtain ⟨t₃, w₃, ht₃, hw₃, he₃⟩ := timedRead_lf (h := { h with rx := w₂ }) hready.chunked
    hready.state ht₂ hready.size hw₂
  obtain ⟨t₄, w₄, ht₄, hw₄, he₄⟩ := timedRead_frame (h := { h with rx := w₃ }) hready.chunked
    hready.state (by decide) ht₃ hw₃
  replace he₄ := he₄.trans (hkeep (by rw [hready.size]; rfl) t₄ w₄)
  obtain ⟨t₅, w₅, ht₅, hw₅, he₅⟩ := timedRead_lf (h := { h with rx := w₄ }) hready.chunked
    hready.state ht₄ hready.size (List.append_nil (marked false [10]) ▸ hw₄)
  obtain rfl := hw₅.eq_of_nil
  have hgo : h.iBodyLengthConsumed ≠ -1 := by
    rw [hready.consumed]
    decide
  rw [bodyLoop_from hgo, he₁, bodyFrom_congr (he₂.trans (he₃.trans (he₄.trans he₅))), bodyFrom,
    timedRead_silent (hat w₅) hrest ht₅]
  rfl

/-- The client when a response in chunks has been read. -/
theorem chunked_client {heap : Nat → Bool} (hheap : ∀ k, heap k = true) {h : HttpClient}
    (hf : Fresh h) {infos : List StatusText}
    (hinfos : ∀ l ∈ infos, l.Ok ∧ informational l.code = true) {final : StatusText} (hok : final.Ok)
    (hfinal : informational final.code = false) {hs : List Header} (hhs : ∀ x ∈ hs, x.Ok)
    (hchunked : .chunked ∈ hs) (hlen : lastLength hs = none) {cs : List Chunk}
    (hcs : ∀ c ∈ cs, c.Ok ∧ c.data ≠ []) {last : Chunk} (hlast : last.Ok) (hend : last.data = [])
    {mid rest : List Item}
    (hw : Carries h.iHttpResponseTimeout 0 h.rx
      (marked true (infos.flatMap StatusText.line ++ final.line) ++ marked true (block hs)) mid)
    (hb : Carries timeout 0 mid (cs.flatMap Chunk.marks ++ last.marks) rest)
    (hrest : Silent timeout rest) :
    h.responseStatusCode.1 = final.code ∧ h.responseStatusCode.2.responseBody heap =
      (some (cs.flatMap Chunk.data), { h with
        iState := .eReadingChunkLength, iStatusCode := final.code, iContentLength := -1
        iIsChunked := true, iChunkLength := 0, rx := rest.tail }) := by
  obtain ⟨hcode, hhead⟩ := head_read hf hinfos hok hfinal hhs hw
  refine ⟨hcode, ?_⟩
  have hnoted : lengthNoted kNoContentLengthHeader hs = -1 := by
    rw [lengthNoted, hlen]
    rfl
  have hcontains : hs.contains .chunked = true := by simpa using hchunked
  rw [hnoted, hcontains] at hhead
  let h₁ : HttpClient := { h with
    iState := .eReadingChunkLength, iStatusCode := final.code, rx := mid
    iContentLength := -1, iIsChunked := true, iChunkLength := 0 }
  have hneg : (-1 : Int) ≤ 0 := by decide
  have hready : Ready h₁ := ⟨rfl, rfl, hneg, hf.consumed, rfl⟩
  have hloop := bodyLoop_chunks hheap hready hcs hlast hend hb hrest
  have hstart : h.responseStatusCode.2.contentLength = (-1, h₁) := hhead
  rw [responseBody, hstart]
  simp [hloop, h₁]

/-- Every response in chunks of any sizes is read as it was sent, however slowly it comes in, when
nothing is sent after it: the code, and then the data of all chunks, and nothing of their frame. -/
theorem chunked_read_back {heap : Nat → Bool} (hheap : ∀ k, heap k = true) {h : HttpClient}
    (hf : Fresh h) {infos : List StatusText}
    (hinfos : ∀ l ∈ infos, l.Ok ∧ informational l.code = true) {final : StatusText} (hok : final.Ok)
    (hfinal : informational final.code = false) {hs : List Header} (hhs : ∀ x ∈ hs, x.Ok)
    (hchunked : .chunked ∈ hs) (hlen : lastLength hs = none) {cs : List Chunk}
    (hcs : ∀ c ∈ cs, c.Ok ∧ c.data ≠ []) {last : Chunk} (hlast : last.Ok) (hend : last.data = [])
    {mid rest : List Item}
    (hw : Carries h.iHttpResponseTimeout 0 h.rx
      (marked true (infos.flatMap StatusText.line ++ final.line) ++ marked true (block hs)) mid)
    (hb : Carries timeout 0 mid (cs.flatMap Chunk.marks ++ last.marks) rest)
    (hrest : Silent timeout rest) :
    h.responseStatusCode.1 = final.code ∧
      (h.responseStatusCode.2.responseBody heap).1 = some (cs.flatMap Chunk.data) := by
  obtain ⟨hcode, hbody⟩ := chunked_client hheap hf hinfos hok hfinal hhs hchunked hlen hcs hlast hend
    hw hb hrest
  rw [hbody]
  exact ⟨hcode, rfl⟩

/-- `hello` in chunks of three and two octets, the second with an extension. -/
def helloChunks : List Chunk := [⟨text "3", [], text "hel"⟩, ⟨text "02", text ";x", text "lo"⟩]

def lastChunk : Chunk := ⟨text "0", [], []⟩

def helloHead : List (UInt8 × Bool) :=
  marked true ([].flatMap StatusText.line ++ okLine.line) ++ marked true (block [imageType, .chunked])

def helloBody : List (UInt8 × Bool) := helloChunks.flatMap Chunk.marks ++ lastChunk.marks

def helloLine : List Item :=
  ready (helloHead.map Prod.fst) ++ (ready (helloBody.map Prod.fst) ++ [.pause 1000])

theorem helloChunks_ok : ∀ c ∈ helloChunks, c.Ok ∧ c.data ≠ [] := by
  intro c hc
  simp only [helloChunks, List.mem_cons, List.not_mem_nil, or_false] at hc
  rcases hc with rfl | rfl
  · exact ⟨⟨List.forall_mem_singleton.mpr (by decide), by decide, by decide, by simp⟩, by decide⟩
  · have hdigits : ∀ x ∈ text "02", UrlForm.hex? x ≠ none :=
      List.forall_mem_cons.mpr ⟨by decide, List.forall_mem_singleton.mpr (by decide)⟩
    have hext : ∀ x ∈ text ";x", UrlForm.hex? x = none ∧ x ≠ 10 :=
      List.forall_mem_cons.mpr ⟨by decide, List.forall_mem_singleton.mpr (by decide)⟩
    exact ⟨⟨hdigits, by decide, by decide, hext⟩, by decide⟩

theorem helloHeaders_ok : ∀ x ∈ [imageType, .chunked], x.Ok :=
  List.forall_mem_cons.mpr ⟨imageType_ok, List.forall_mem_singleton.mpr trivial⟩

theorem lastChunk_ok : lastChunk.Ok :=
  ⟨List.forall_mem_singleton.mpr (by decide), by decide, by decide, by simp [lastChunk]⟩

theorem chunked_read_back_hello :
    (sentClient helloLine).responseStatusCode.1 = 200 ∧
      ((sentClient helloLine).responseStatusCode.2.responseBody fun _ => true).1 =
        some (text "hello") :=
  @chunked_read_back (fun _ => true) (fun _ => rfl) (sentClient helloLine)
    (fresh_sentClient _) [] (by simp) okLine okLine_ok (by decide) [imageType, .chunked]
    helloHeaders_ok (by simp) rfl helloChunks helloChunks_ok lastChunk lastChunk_ok rfl
    (ready (helloBody.map Prod.fst) ++ [.pause 1000]) [.pause 1000] (carries_ready helloHead 0 _)
    (carries_ready helloBody 0 _) (.inr ⟨1000, [], rfl, by decide, by decide⟩)

/-! ## Size lines with letters -/

theorem hexValue_append (n : Nat) (s t : Bytes) :
    hexValue n (s ++ t) = hexValue (hexValue n s) t := List.foldl_append

/-- In a size line every hexadecimal digit counts, wherever it stands. -/
theorem sizeRead_letters {s : Bytes} {n : Nat}
    (hfits : hexValue n (s.filter fun c => (UrlForm.hex? c).isSome) < 2 ^ 31) :
    sizeRead n s = hexValue n (s.filter fun c => (UrlForm.hex? c).isSome) := by
  induction s generalizing n with
  | nil => rfl
  | cons c s ih =>
    cases hd : UrlForm.hex? c with
    | none =>
      rw [List.filter_cons_of_neg (by simp [hd])] at hfits ⊢
      have hstep : sizeStep n c = n := by rw [sizeStep, hd]
      rw [sizeRead, List.foldl_cons, hstep]
      exact ih hfits
    | some d =>
      rw [List.filter_cons_of_pos (by simp [hd])] at hfits ⊢
      have hval : hexValue n (c :: s.filter fun c => (UrlForm.hex? c).isSome) =
          hexValue (n * 16 + d) (s.filter fun c => (UrlForm.hex? c).isSome) := by
        rw [hexValue, List.foldl_cons, hd]
        rfl
      rw [hval] at hfits ⊢
      have hstep : sizeStep n c = (n * 16 + d : Nat) := by
        rw [sizeStep, hd]
        exact int32_of_lt (Nat.lt_of_le_of_lt (le_hexValue _ _) hfits)
      rw [sizeRead, List.foldl_cons, hstep]
      exact ih hfits

theorem hexValue_gt {n : Nat} (hn : 0 < n) {s : Bytes} (hne : s ≠ []) : n < hexValue n s := by
  obtain ⟨c, s, rfl⟩ := List.exists_cons_of_ne_nil hne
  refine Nat.lt_of_lt_of_le ?_ (le_hexValue (n * 16 + (UrlForm.hex? c).getD 0) s)
  omega

/-- What the loop reads of the size line of a chunk that is not the last is the size as it is written
exactly when its extension has no hexadecimal digits, if the number that these make with it still
fits. -/
theorem size_read_iff {size ext : Bytes} (hsize : ∀ c ∈ size, UrlForm.hex? c ≠ none)
    (hpos : 0 < hexValue 0 size)
    (hfits : hexValue 0 ((size ++ ext).filter fun c => (UrlForm.hex? c).isSome) < 2 ^ 31) :
    (10 ∉ ext → ∀ w, chunkLengthLoop 0 (ready (size ++ ext) ++ .octet 10 :: w) =
        ((sizeRead 0 (size ++ ext), true), w)) ∧
      (sizeRead 0 (size ++ ext) = hexValue 0 size ↔ ∀ c ∈ ext, UrlForm.hex? c = none) := by
  refine ⟨fun hext w => chunkLengthLoop_line (fun hmem => ?_) 0 w, ?_⟩
  · exact (List.mem_append.mp hmem).elim (fun h => hsize 10 h rfl) hext
  have hall : size.filter (fun c => (UrlForm.hex? c).isSome) = size := by
    refine List.filter_eq_self.mpr fun c hc => ?_
    rw [Option.isSome_iff_ne_none]
    exact hsize c hc
  have hread := @sizeRead_letters (size ++ ext) 0 hfits
  rw [List.filter_append, hall, hexValue_append] at hread
  constructor
  · intro h c hc
    by_contra hhex
    have hne : ext.filter (fun c => (UrlForm.hex? c).isSome) ≠ [] := by
      refine List.ne_nil_of_mem (a := c) (List.mem_filter.mpr ⟨hc, ?_⟩)
      rwa [Option.isSome_iff_ne_none]
    have hgt := hexValue_gt hpos hne
    rw [show ((0 : Nat) : Int) = 0 from rfl] at hread
    rw [hread] at h
    omega
  · intro h
    have hnone : ext.filter (fun c => (UrlForm.hex? c).isSome) = [] := by
      refine List.filter_eq_nil_iff.mpr fun c hc => ?_
      rw [h c hc]
      simp
    rw [hnone] at hread
    exact hread

theorem size_read_iff_ext :
    (10 ∉ text ";a=1\x0d" → ∀ w, chunkLengthLoop 0
        (ready (text "3" ++ text ";a=1\x0d") ++ .octet 10 :: w) =
          ((sizeRead 0 (text "3" ++ text ";a=1\x0d"), true), w)) ∧
      (sizeRead 0 (text "3" ++ text ";a=1\x0d") = hexValue 0 (text "3") ↔
        ∀ c ∈ text ";a=1\x0d", UrlForm.hex? c = none) :=
  size_read_iff (List.forall_mem_singleton.mpr (by decide)) (by decide) (by decide)

end HttpClient
end Http
end TimerCam

import TimerCam.Http.WebSocket

/-!
# Http.Listening

What `parseMessage` makes of the frames that come in.

* `frames_delivered`  : over any run of polls the parts of messages are delivered once and in order,
  and each ping is answered.
* `continuations_lost` : a part of a message behind a ping is taken for a ping.
-/

namespace TimerCam
namespace Http
namespace WebSocketClient

open Octets Wire
open WebSocket (zeroKey)

/-! ## Octets that are there -/

/-- The connection after the upgrade. -/
structure Open (h : HttpClient) : Prop where
  state : h.iState = .eReadingBody
  plain : h.iIsChunked = false
  length : h.iContentLength ≤ 0

theorem Open.reached {h : HttpClient} (ho : Open h) : h.endOfHeadersReached = true := by
  simp [HttpClient.endOfHeadersReached, ho.state]

section Octet

variable {w : WebSocketClient} (ho : Open w.toHttpClient) {c : UInt8} {rx : List Item}
  (hrx : w.rx = .octet c :: rx)
include ho hrx

theorem takeOctet_eq : w.toHttpClient.takeOctet = (some c, { w.toHttpClient with rx := rx }) := by
  have hcount : ∀ h : HttpClient, h.iContentLength ≤ 0 → h.countBody = h := by
    intro h hl
    exact if_neg fun hc => by omega
  have hchunk : ∀ h : HttpClient, h.iState = .eReadingBody → h.countChunk = h := by
    intro h hs
    exact if_neg (by simp [hs])
  rw [HttpClient.takeOctet, hrx]
  simp only
  rw [hcount { w.toHttpClient with rx := rx } ho.length,
    hchunk { w.toHttpClient with rx := rx } ho.state]

theorem readInt_eq : w.readInt =
    ((c.toNat : Int), { w with toHttpClient := { w.toHttpClient with rx := rx } }) := by
  have hplain : ¬ (w.iIsChunked = true ∧ w.available = 0) := by
    rintro ⟨hc, -⟩
    rw [ho.plain] at hc
    cases hc
  rw [readInt, if_neg hplain, takeOctet_eq ho hrx]

end Octet

/-- The client with other octets to read. -/
def withRx (rx : List Item) (w : WebSocketClient) : WebSocketClient :=
  { w with toHttpClient := { w.toHttpClient with rx := rx } }

theorem readInts_eq {w : WebSocketClient} (ho : Open w.toHttpClient) {s : Bytes} {rx : List Item}
    (hrx : w.rx = ready s ++ rx) :
    w.readInts s.length = (s.map fun c => (c.toNat : Int), w.withRx rx) := by
  induction s generalizing w with
  | nil =>
    have hrx' : w.rx = rx := hrx
    subst hrx'
    rfl
  | cons c s ih =>
    have ho' : Open (w.withRx (ready s ++ rx)).toHttpClient := ⟨ho.state, ho.plain, ho.length⟩
    have hint : w.readInt = ((c.toNat : Int), w.withRx (ready s ++ rx)) := readInt_eq ho hrx
    rw [List.length_cons, readInts, hint]
    simp only [ih ho' rfl]
    rfl

theorem toNat_ofInt {n : Nat} (h : n < 2 ^ 64) : (UInt64.ofInt n).toNat = n := by
  have hmod : ((n : Int) % 2 ^ 64).toNat = n := by omega
  rw [UInt64.ofInt, hmod]
  exact UInt64.toNat_ofNat_of_lt' h

/-- The value of octets that are ORed at their places. -/
theorem toNat_orShifted {s : Bytes} (hs : s.length ≤ 8) :
    (orShifted (s.map fun c => (c.toNat : Int))).toNat = WebSocket.ofBe s := by
  induction s with
  | nil => rfl
  | cons c s ih =>
    rw [List.length_cons] at hs
    have hc := c.toNat_lt
    have hlow := WebSocket.ofBe_lt s
    have hshift : (UInt64.ofNat (8 * s.length)).toNat % 64 = 8 * s.length := by
      rw [UInt64.toNat_ofNat_of_lt' (by simp only [UInt64.size]; omega)]
      omega
    have hoctet := toNat_ofInt (n := c.toNat) (by omega)
    have hpow : (256 : Nat) ^ s.length = 2 ^ (8 * s.length) := by
      rw [Nat.pow_mul]
    have hle : c.toNat * 2 ^ (8 * s.length) < 2 ^ 64 := by
      have hk : 2 ^ (8 * s.length) ≤ 2 ^ 56 := Nat.pow_le_pow_right (by decide) (by omega)
      calc c.toNat * 2 ^ (8 * s.length) ≤ c.toNat * 2 ^ 56 := Nat.mul_le_mul_left _ hk
        _ < 2 ^ 64 := by omega
    rw [hpow] at hlow
    rw [List.map_cons, orShifted, UInt64.toNat_or, UInt64.toNat_shiftLeft, List.length_map, hshift,
      hoctet, ih (by omega), WebSocket.ofBe_cons, hpow, Nat.shiftLeft_eq, Nat.mod_eq_of_lt hle,
      Nat.mul_comm, Nat.two_pow_add_eq_or_of_lt hlow]

/-! ## The head of a frame -/

/-- The first octet of a frame. -/
def firstOctet (f : WebSocket.Frame) : UInt8 := UInt8.ofNat (WebSocket.flag f.fin + f.opcode)

/-- `iRxOpCode` after the head of `f`. -/
def opCodeAfter (iRxOpCode : UInt8) (f : WebSocket.Frame) : UInt8 :=
  if f.opcode = 0 then iRxOpCode ||| firstOctet f else firstOctet f

theorem toNat_firstOctet (f : WebSocket.Frame) :
    (firstOctet f).toNat = WebSocket.flag f.fin + f.opcode := by
  have hop := f.opcode.isLt
  refine UInt8.toNat_ofNat_of_lt' ?_
  simp only [UInt8.size]
  cases f.fin with
  | true =>
    have : WebSocket.flag true = 128 := rfl
    omega
  | false =>
    have : WebSocket.flag false = 0 := rfl
    omega

theorem firstOctet_low (f : WebSocket.Frame) : firstOctet f &&& 0x0f = 0 ↔ f.opcode = 0 := by
  have hop := f.opcode.isLt
  have hflag : WebSocket.flag f.fin % 16 = 0 := by
    cases f.fin with
    | true => rfl
    | false => rfl
  have hlow : (firstOctet f &&& 0x0f).toNat = f.opcode := by
    rw [toNat_and_0f, toNat_firstOctet]
    omega
  constructor
  · intro h
    rw [h] at hlow
    exact Fin.ext hlow.symm
  · intro h
    rw [h] at hlow
    exact UInt8.toNat.inj hlow

/-- The frame has been read up to its octets. -/
def headRead (f : WebSocket.Frame) (rx : List Item) (w : WebSocketClient) : WebSocketClient :=
  { w.withRx rx with
    iRxOpCode := opCodeAfter w.iRxOpCode f, iRxSize := UInt64.ofNat f.payload.length
    iRxMasked := f.key.isSome, iRxMaskIndex := 0, iRxMaskKey := f.key.getD w.iRxMaskKey }

theorem withRx_open {w : WebSocketClient} (ho : Open w.toHttpClient) (rx : List Item) :
    Open (w.withRx rx).toHttpClient := ⟨ho.state, ho.plain, ho.length⟩

theorem withRx_self {w : WebSocketClient} {rx : List Item} (hrx : w.rx = rx) : w.withRx rx = w := by
  rw [withRx, ← hrx]

theorem ofInt_octet (c : UInt8) : UInt8.ofInt (c.toNat : Int) = c := by
  have hc := c.toNat_lt
  have hmod : ((c.toNat : Int) % 2 ^ 8).toNat = c.toNat := by omega
  rw [UInt8.ofInt, hmod, UInt8.ofNat_toNat]

/-- What the strict reader takes for the length, the code does. -/
theorem readSize_eq {w : WebSocketClient} (ho : Open w.toHttpClient) {l n : Nat} {s t : Bytes}
    (hread : WebSocket.length? l s = some (n, t)) {rx : List Item} (hrx : w.rx = ready s ++ rx) :
    w.readSize l = (UInt64.ofNat n, w.withRx (ready t ++ rx)) := by
  rw [readSize]
  unfold WebSocket.length? at hread
  by_cases hl : l < 126
  · rw [if_pos hl] at hread
    cases hread
    rw [if_pos (by omega), withRx_self hrx]
    refine congrArg (·, w) (UInt64.toNat.inj ?_)
    rw [toNat_ofInt (by omega), UInt64.toNat_ofNat_of_lt' (by simp only [UInt64.size]; omega)]
  · rw [if_neg hl] at hread
    have hsize : (if (l : Int) = 126 then 2 else 8) = if l = 126 then 2 else 8 := by
      by_cases h : l = 126
      · rw [if_pos h, if_pos (by omega)]
      · rw [if_neg h, if_neg (by omega)]
    have hsmall : (if l = 126 then 2 else 8) ≤ 8 := by
      split
      · omega
      · omega
    rw [if_neg (by omega), hsize]
    generalize (if l = 126 then 2 else 8) = k at hread hsmall
    obtain ⟨hcond, heq⟩ := Option.ite_none_right_eq_some.mp hread
    cases heq
    have hk : (s.take k).length = k := List.length_take_of_le hcond.1
    have hsplit : w.rx = ready (s.take k) ++ (ready (s.drop k) ++ rx) := by
      rw [← List.append_assoc, ← ready_append, List.take_append_drop]
      exact hrx
    have hints := readInts_eq ho hsplit
    rw [hk] at hints
    simp only [hints]
    refine congrArg (·, w.withRx (ready (s.drop k) ++ rx)) (UInt64.toNat.inj ?_)
    have hlt := WebSocket.ofBe_lt (s.take k)
    have hpow : (256 : Nat) ^ k ≤ 256 ^ 8 := Nat.pow_le_pow_right (by decide) hsmall
    rw [hk] at hlt
    rw [toNat_orShifted (by omega)]
    exact (UInt64.toNat_ofNat_of_lt' (Nat.lt_of_lt_of_le hlt hpow)).symm

theorem readMask_eq {w : WebSocketClient} (ho : Open w.toHttpClient) {key : Option WebSocket.Key}
    (hm : w.iRxMasked = key.isSome) {rx : List Item}
    (hrx : w.rx = ready (WebSocket.keyBytes key) ++ rx) :
    w.readMask = (w.withRx rx).withKey (key.getD w.iRxMaskKey) := by
  cases key with
  | none =>
    have hrx' : w.rx = rx := hrx
    rw [readMask, hm, withRx_self hrx']
    rfl
  | some key =>
    have hints := readInts_eq ho hrx
    rw [WebSocket.keyBytes, Vector.length_toList] at hints
    have hkey : (key.toList.map fun c => (c.toNat : Int)).map UInt8.ofInt = key.toList := by
      rw [List.map_map]
      exact (List.map_congr_left fun c _ => ofInt_octet c).trans (List.map_id _)
    have hsame := WebSocket.keyOf_toList key []
    rw [List.append_nil] at hsame
    rw [readMask, hm]
    simp only [Option.isSome_some, if_true, hints, hkey]
    exact congrArg (fun k => (w.withRx rx).withKey k) hsame

/-- The head of a frame is read, whatever follows it. -/
theorem parseHead_eq {w : WebSocketClient} (ho : Open w.toHttpClient) {f : WebSocket.Frame}
    (hn : f.payload.length < 2 ^ 63) {rx : List Item} (hrx : w.rx = ready f.bytes ++ rx) :
    w.parseHead = w.headRead f (ready (WebSocket.masked f.key f.payload) ++ rx) := by
  obtain ⟨b, s, hfield, hflag, hlen⟩ := WebSocket.length?_lengthField f.key.isSome hn
    (WebSocket.keyBytes f.key ++ WebSocket.masked f.key f.payload)
  have hb := b.toNat_lt
  generalize ht : WebSocket.keyBytes f.key ++ WebSocket.masked f.key f.payload = t at hlen
  have hbytes : w.rx = .octet (firstOctet f) :: .octet b :: (ready (s ++ t) ++ rx) := by
    rw [hrx, WebSocket.Frame.bytes, hfield, ← ht]
    simp only [List.cons_append, List.append_assoc, ready_cons]
    rfl
  have hlow : (b.toNat : Int) % 256 % 128 = ((b.toNat % 128 : Nat) : Int) := by omega
  have hmask : decide (128 ≤ (b.toNat : Int) % 256) = f.key.isSome := by
    cases hkey : f.key.isSome with
    | true =>
      rw [hkey] at hflag
      have : WebSocket.flag true / 128 = 1 := rfl
      exact decide_eq_true (by omega)
    | false =>
      rw [hkey] at hflag
      have : WebSocket.flag false / 128 = 0 := rfl
      exact decide_eq_false (by omega)
  have hop : (if firstOctet f &&& 0x0f = 0 then w.iRxOpCode ||| firstOctet f else firstOctet f) =
      opCodeAfter w.iRxOpCode f := by
    unfold opCodeAfter
    by_cases h : f.opcode = 0
    · rw [if_pos h, if_pos ((firstOctet_low f).mpr h)]
    · rw [if_neg h, if_neg (fun hz => h ((firstOctet_low f).mp hz))]
  let w₁ := w.withRx (.octet b :: (ready (s ++ t) ++ rx))
  let w₂ := w.withRx (ready (s ++ t) ++ rx)
  let w₃ := w₂.withHead (opCodeAfter w.iRxOpCode f) f.key.isSome
  let w₄ := (w₃.withRx (ready t ++ rx)).withSize (UInt64.ofNat f.payload.length)
  have h₁ : w.readInt = (((firstOctet f).toNat : Int), w₁) := readInt_eq ho hbytes
  have h₂ : w₁.readInt = ((b.toNat : Int), w₂) := readInt_eq (withRx_open ho _) rfl
  have ho₃ : Open w₃.toHttpClient := ⟨ho.state, ho.plain, ho.length⟩
  have hrx₃ : w₃.rx = ready (s ++ t) ++ rx := rfl
  have h₃ : w₃.readSize (b.toNat % 128 : Nat) =
      (UInt64.ofNat f.payload.length, w₃.withRx (ready t ++ rx)) := readSize_eq ho₃ hlen hrx₃
  have hrest : w₄.rx = ready (WebSocket.keyBytes f.key) ++
      (ready (WebSocket.masked f.key f.payload) ++ rx) := by
    rw [← List.append_assoc, ← ready_append, ht]
    rfl
  have h₄ := readMask_eq (w := w₄) (withRx_open ho _) rfl hrest
  simp only [parseHead, h₁, ofInt_octet, hop, h₂, hmask, hlow]
  have h₅ : ((w₃.readSize (b.toNat % 128 : Nat)).2.withSize (w₃.readSize (b.toNat % 128 : Nat)).1) =
      w₄ := by rw [h₃]
  rw [h₅, h₄]
  rfl

/-! ## The octets of a frame -/

/-- Octets under a mask, if there is one, from position `k` of it on. -/
def maskedFrom (key : Option WebSocket.Key) (k : Nat) (s : Bytes) : Bytes :=
  match key with
  | none => s
  | some key => WebSocket.unmask key k s

/-- The octets `s` of a frame are left to read. -/
structure Reading (key : Option WebSocket.Key) (k : Nat) (s : Bytes) (rx : List Item)
    (w : WebSocketClient) : Prop where
  isOpen : Open w.toHttpClient
  rx : w.rx = ready (maskedFrom key k s) ++ rx
  size : w.iRxSize = UInt64.ofNat s.length
  fits : s.length < 2 ^ 31
  masked : w.iRxMasked = key.isSome
  mask : ∀ y, key = some y → w.iRxMaskIndex = k ∧ w.iRxMaskKey = y

/-- So many octets of the frame are left, and `rx` is what is there. -/
def left (size i : Nat) (rx : List Item) (w : WebSocketClient) : WebSocketClient :=
  { w.withRx rx with iRxSize := UInt64.ofNat size, iRxMaskIndex := i }

theorem Reading.available {key : Option WebSocket.Key} {k : Nat} {s : Bytes} {rx : List Item}
    {w : WebSocketClient} (h : Reading key k s rx w) : w.available = s.length := by
  have hfits := h.fits
  have hsize : (UInt64.ofNat s.length).toNat = s.length :=
    UInt64.toNat_ofNat_of_lt' (by simp only [UInt64.size]; omega)
  rw [WebSocketClient.available, if_pos h.isOpen.reached, h.size, hsize]
  exact HttpClient.int32_of_lt hfits

theorem readBuf_one {w : WebSocketClient} (ho : Open w.toHttpClient) {c : UInt8} {rx : List Item}
    (hrx : w.rx = .octet c :: rx) :
    w.toHttpClient.readBuf 1 = ([c], { w.toHttpClient with rx := rx }) := by
  have hlen := ho.length
  have hone : min 1 (Wire.available (.octet c :: rx)) = 1 := by
    simp [Wire.available]
  rw [HttpClient.readBuf, hrx]
  simp only [hone]
  rw [if_neg (by omega)]
  rfl

theorem ofNat_succ_sub (n : Nat) : UInt64.ofNat (n + 1) - UInt64.ofNat 1 = UInt64.ofNat n := by
  rw [UInt64.ofNat_add]
  exact UInt64.add_sub_cancel _ _

theorem readBuf_masked {w : WebSocketClient} {aSize : Nat} {s : Bytes} {h' : HttpClient}
    (hbuf : w.toHttpClient.readBuf aSize = (s, h')) (hpos : 0 < s.length) (hm : w.iRxMasked = true) :
    w.readBuf aSize = (WebSocket.unmask w.iRxMaskKey w.iRxMaskIndex s,
      { w with
        toHttpClient := h', iRxSize := w.iRxSize - UInt64.ofNat s.length
        iRxMaskIndex := w.iRxMaskIndex + aSize }) := by
  rw [readBuf, hbuf]
  simp only [if_pos hpos, if_pos hm]

theorem readBuf_plain {w : WebSocketClient} {aSize : Nat} {s : Bytes} {h' : HttpClient}
    (hbuf : w.toHttpClient.readBuf aSize = (s, h')) (hpos : 0 < s.length)
    (hm : ¬ w.iRxMasked = true) : w.readBuf aSize =
      (s, { w with toHttpClient := h', iRxSize := w.iRxSize - UInt64.ofNat s.length }) := by
  rw [readBuf, hbuf]
  simp only [if_pos hpos, if_neg hm]

/-- One octet is read. -/
theorem Reading.read {key : Option WebSocket.Key} {k : Nat} {c : UInt8} {s : Bytes} {rx : List Item}
    {w : WebSocketClient} (h : Reading key k (c :: s) rx w) :
    ∃ i, w.read = (some c, w.left s.length i (ready (maskedFrom key (k + 1) s) ++ rx)) ∧
      Reading key (k + 1) s rx (w.left s.length i (ready (maskedFrom key (k + 1) s) ++ rx)) := by
  have hfits := h.fits
  rw [List.length_cons] at hfits
  have hsize : UInt64.ofNat s.length = w.iRxSize - UInt64.ofNat 1 := by
    rw [h.size, List.length_cons, ofNat_succ_sub]
  obtain ⟨h₁, h₂, h₃⟩ := h.isOpen
  cases hkey : key with
  | none =>
    subst hkey
    have hm : ¬ w.iRxMasked = true := by
      rw [h.masked]
      exact Bool.false_ne_true
    refine ⟨w.iRxMaskIndex, ?_, ⟨h₁, h₂, h₃⟩, rfl, rfl, by omega, h.masked, nofun⟩
    rw [WebSocketClient.read, readBuf_plain (readBuf_one h.isOpen h.rx) Nat.one_pos hm, left, hsize]
    rfl
  | some y =>
    subst hkey
    obtain ⟨hindex, hy⟩ := h.mask y rfl
    have hback : WebSocket.unmask w.iRxMaskKey w.iRxMaskIndex [c ^^^ y.at k] = [c] := by
      rw [hindex, hy, WebSocket.unmask, WebSocket.unmask, UInt8.xor_assoc, UInt8.xor_self,
        UInt8.xor_zero]
    refine ⟨w.iRxMaskIndex + 1, ?_, ⟨h₁, h₂, h₃⟩, rfl, rfl, by omega, h.masked, ?_⟩
    · rw [WebSocketClient.read, readBuf_masked (readBuf_one h.isOpen h.rx) Nat.one_pos h.masked, hback,
        left, hsize]
      rfl
    · rintro y' ⟨⟩
      exact ⟨congrArg (· + 1) hindex, hy⟩

theorem Reading.left_self {key : Option WebSocket.Key} {k : Nat} {rx : List Item}
    {w : WebSocketClient} (h : Reading key k [] rx w) : w.left 0 w.iRxMaskIndex rx = w := by
  have hrx : w.rx = rx := by
    rw [h.rx]
    cases key with
    | none => rfl
    | some y => rfl
  have hsize : UInt64.ofNat 0 = w.iRxSize := h.size.symm
  rw [left, withRx_self hrx, hsize]

/-- The octets of a frame that is being read are there. -/
theorem Reading.rx_cons {key : Option WebSocket.Key} {k : Nat} {c : UInt8} {s : Bytes}
    {rx : List Item} {w : WebSocketClient} (h : Reading key k (c :: s) rx w) :
    ∃ d rx', w.rx = .octet d :: rx' := by
  rw [h.rx]
  cases key with
  | none => exact ⟨_, _, rfl⟩
  | some y => exact ⟨_, _, rfl⟩

theorem readStringLoop_eq {heap : Nat → Bool} (hheap : ∀ k, heap k = true)
    {key : Option WebSocket.Key} {k : Nat} {s : Bytes} {rx : List Item} {w : WebSocketClient}
    (h : Reading key k s rx w) (b : Builder UInt8) :
    ∃ i, readStringLoop heap s.length b w = (b.text ++ s, w.left 0 i rx) := by
  induction s generalizing k w b with
  | nil =>
    refine ⟨w.iRxMaskIndex, ?_⟩
    rw [h.left_self, List.append_nil]
    rfl
  | cons c s ih =>
    obtain ⟨i, hread, hrest⟩ := h.read
    obtain ⟨j, hloop⟩ := ih hrest (b.append heap [c])
    have htext : (b.append heap [c]).text = b.text ++ [c] := by
      simp [Builder.append, hheap]
    refine ⟨j, ?_⟩
    rw [List.length_cons, readStringLoop, hread]
    simp only [Option.getD_some]
    rw [hloop, htext, List.append_assoc]
    rfl

theorem flushRx_eq {key : Option WebSocket.Key} {k : Nat} {s : Bytes} {rx : List Item}
    {w : WebSocketClient} (h : Reading key k s rx w) : ∃ i, w.flushRx = some (w.left 0 i rx) := by
  induction s generalizing k w with
  | nil =>
    refine ⟨w.iRxMaskIndex, ?_⟩
    rw [h.left_self, flushRx, h.available]
    rfl
  | cons c s ih =>
    obtain ⟨i, hread, hrest⟩ := h.read
    obtain ⟨j, hloop⟩ := ih hrest
    obtain ⟨d, rx', hrx⟩ := h.rx_cons
    refine ⟨j, ?_⟩
    rw [flushRx, h.available, if_neg (by simp only [List.length_cons]; omega)]
    split
    · rename_i hnil
      rw [hrx] at hnil
      cases hnil
    · rename_i hpause
      rw [hrx] at hpause
      cases hpause
    · rw [hread, hloop]
      rfl

/-- One octet more goes into the answer. -/
theorem pongLoop_cons {n : Nat} {key : Option WebSocket.Key} {k : Nat} {c : UInt8} {s : Bytes}
    {rx : List Item} {w w₁ : WebSocketClient} (h : Reading key k (c :: s) rx w)
    (hread : w.read = (some c, w₁)) :
    pongLoop n w = (w₁.write n [c]).bind fun r => pongLoop n r.2 := by
  obtain ⟨d, rx', hrx⟩ := h.rx_cons
  rw [pongLoop, h.available, if_neg (by simp only [List.length_cons]; omega)]
  split
  · split
    · rename_i hnone
      rw [hread] at hnone
      have hwrite : w₁.write n [c] = none := hnone
      rw [hwrite]
      rfl
    · rename_i r hsome
      rw [hread] at hsome
      have hwrite : w₁.write n [c] = some r := hsome
      rw [hwrite]
      rfl
  · rename_i hnot
    exact absurd hrx (hnot d rx')

section Pong

variable {n : Nat} {key : Option WebSocket.Key} {k : Nat} {c : UInt8} {s : Bytes} {rx : List Item}
  {w : WebSocketClient} (ht : w.iTxStarted = true)
include ht

/-- An octet that fits is kept, and the rest of the frame goes on. -/
theorem pongLoop_keeps (h : Reading key k (c :: s) rx w) (hlt : w.iTxBuffer.length < n) :
    ∃ i w₁, w₁ = { w.left s.length i (ready (maskedFrom key (k + 1) s) ++ rx) with
        iTxBuffer := w.iTxBuffer ++ [c] } ∧
      Reading key (k + 1) s rx w₁ ∧ pongLoop n w = pongLoop n w₁ := by
  obtain ⟨i, hread, hrest⟩ := h.read
  refine ⟨i, _, rfl,
    ⟨hrest.isOpen, hrest.rx, hrest.size, hrest.fits, hrest.masked, hrest.mask⟩, ?_⟩
  rw [pongLoop_cons h hread, write_fits hrest.isOpen.reached ht hlt]
  rfl

theorem pongLoop_eq (h : Reading key k s rx w) (hfits : w.iTxBuffer.length + s.length ≤ n) :
    ∃ i, pongLoop n w = some { w.left 0 i rx with iTxBuffer := w.iTxBuffer ++ s } := by
  induction s generalizing k w with
  | nil =>
    refine ⟨w.iRxMaskIndex, ?_⟩
    rw [h.left_self, List.append_nil, pongLoop, h.available]
    rfl
  | cons c s ih =>
    rw [List.length_cons] at hfits
    obtain ⟨i, w₁, hw₁, hrest, hloop⟩ := pongLoop_keeps ht h (n := n) (by omega)
    have hbuf : w₁.iTxBuffer = w.iTxBuffer ++ [c] := by rw [hw₁]
    obtain ⟨j, hend⟩ := ih (by rw [hw₁]; exact ht) hrest (by
      rw [hbuf, List.length_append, List.length_singleton]
      omega)
    refine ⟨j, ?_⟩
    rw [hloop, hend, hbuf, List.append_assoc, hw₁]
    rfl

/-- Octets that do not fit are written past the end of the buffer. -/
theorem pongLoop_none (hn : 8 < n ∧ n < 2 ^ 31) (h : Reading key k s rx w)
    (hle : w.iTxBuffer.length ≤ n) (hover : n < w.iTxBuffer.length + s.length) :
    pongLoop n w = none := by
  induction s generalizing k w with
  | nil => exact absurd hover (Nat.not_lt.mpr hle)
  | cons c s ih =>
    rw [List.length_cons] at hover
    by_cases hfull : w.iTxBuffer.length < n
    · obtain ⟨i, w₁, hw₁, hrest, hloop⟩ := pongLoop_keeps ht h hfull
      have hbuf : w₁.iTxBuffer.length = w.iTxBuffer.length + 1 := by
        rw [hw₁, List.length_append, List.length_singleton]
      rw [hloop]
      exact ih (by rw [hw₁]; exact ht) hrest (by omega) (by omega)
    · obtain ⟨i, hread, hrest⟩ := h.read
      have hnone := mt (write_within_iff hrest.isOpen.reached ht ⟨by omega, hn.2⟩ hle [c]).mp (by
        show ¬ (w.iTxBuffer.length + 1 ≤ n ∨ w.iTxBuffer.length ≤ 8)
        omega)
      rw [pongLoop_cons h hread, not_not.mp hnone]
      rfl

end Pong

/-! ## One poll -/

/-- `parseMessage`, and `readString` where it returns a size. -/
def poll (WS_TX_BUFFER_SIZE : Nat) (heap : Nat → Bool) (maskKey : WebSocket.Key)
    (w : WebSocketClient) : Option (Option WebSocket.Part × WebSocketClient) :=
  (w.parseMessage WS_TX_BUFFER_SIZE maskKey).map fun r =>
    if 0 < r.1 then
      let s := r.2.readString heap
      (some ⟨Fin.ofNat 16 r.2.messageType.toNat, r.2.isFinal, s.1⟩, s.2)
    else (none, r.2)

/-- Between two polls: every frame up to here has been read, and `rx` is there. -/
structure Waiting (op : UInt8) (rx : List Item) (tx : Bytes) (w : WebSocketClient) : Prop where
  isOpen : Open w.toHttpClient
  idle : w.iTxStarted = false
  size : w.iRxSize = 0
  opcode : w.iRxOpCode = op
  rx : w.rx = rx
  tx : w.tx = tx

theorem available_open {h : HttpClient} (ho : Open h) :
    h.available = ((Wire.available h.rx : Int), h) := by
  have hsize : h.readChunkLength = h := by
    rw [HttpClient.readChunkLength, if_neg (by simp [ho.state])]
  rw [HttpClient.available, hsize, HttpClient.availableHere]
  simp [ho.state]

section Poll

variable {n : Nat} {heap : Nat → Bool} (hheap : ∀ k, heap k = true) (maskKey : WebSocket.Key)
  {op : UInt8} {rx : List Item} {tx : Bytes} {w : WebSocketClient} {f : WebSocket.Frame}

omit hheap in
theorem Waiting.flush {w : WebSocketClient} (h : Waiting op rx tx w) : w.flushRx = some w := by
  have hzero : int32 ((0 : UInt64).toNat : Int) = 0 := HttpClient.int32_of_lt (n := 0) (by decide)
  rw [flushRx, WebSocketClient.available, if_pos h.isOpen.reached, h.size, hzero]
  rfl

/-- Where nothing is there, nothing happens. -/
theorem poll_nothing (h : Waiting op [] tx w) : poll n heap maskKey w = some (none, w) := by
  have havail : w.toHttpClient.available = (0, w.toHttpClient) := by
    rw [available_open h.isOpen, h.rx]
    rfl
  have hparse : w.parseMessage n maskKey = some (0, w) := by
    rw [parseMessage, h.flush]
    simp only [Option.bind_some, havail]
    rfl
  rw [poll, hparse]
  rfl

/-- The frame is parsed: its octets are left to read, and what is done depends on its type. -/
theorem parse_frame (h : Waiting op (ready f.bytes ++ rx) tx w)
    (hn : f.payload.length < 2 ^ 31) :
    ∃ w₁, Reading f.key 0 f.payload rx w₁ ∧ w₁.iRxOpCode = opCodeAfter op f ∧
      w₁.iTxStarted = false ∧ w₁.tx = tx ∧ w.parseMessage n maskKey =
        (if w₁.messageType = TYPE_CONNECTION_CLOSE then w₁.closed
         else if w₁.messageType = TYPE_PING then
          (pongLoop n (w₁.beginMessage TYPE_PONG).2).map fun w =>
            { (w.endMessage maskKey).2 with iRxSize := 0 }
         else if w₁.messageType = TYPE_PONG then w₁.flushRx.map fun w => { w with iRxSize := 0 }
         else some w₁).map fun w => (int32 w.iRxSize.toNat, w) := by
  have hmany : 2 ≤ Wire.available (ready f.bytes ++ rx) := by
    obtain ⟨b, s, hfield, -, -⟩ :=
      WebSocket.length?_lengthField f.key.isSome (n := f.payload.length) (by omega) []
    rw [available_ready, WebSocket.Frame.bytes, hfield]
    simp only [List.cons_append, List.length_cons]
    omega
  have hhead := parseHead_eq h.isOpen (f := f) (by omega) h.rx
  generalize hw₁ : w.headRead f (ready (WebSocket.masked f.key f.payload) ++ rx) = w₁ at hhead
  have hread : Reading f.key 0 f.payload rx w₁ := by
    rw [← hw₁]
    refine ⟨⟨h.isOpen.state, h.isOpen.plain, h.isOpen.length⟩, ?_, rfl, hn, rfl, ?_⟩
    · cases f.key with
      | none => rfl
      | some y => rfl
    · intro y hy
      refine ⟨rfl, ?_⟩
      simp only [headRead, hy]
      rfl
  have hop : w₁.iRxOpCode = opCodeAfter op f := by
    rw [← hw₁, ← h.opcode]
    rfl
  have hidle : w₁.iTxStarted = false := by
    rw [← hw₁]
    exact h.idle
  have htx : w₁.tx = tx := by
    rw [← hw₁]
    exact h.tx
  refine ⟨w₁, hread, hop, hidle, htx, ?_⟩
  rw [parseMessage, h.flush]
  simp only [Option.bind_some, available_open h.isOpen, h.rx]
  rw [if_neg (by omega), hhead]

include hheap in
/-- A frame that is not taken for a control frame is delivered, if it has octets. -/
theorem poll_data (h : Waiting op (ready f.bytes ++ rx) tx w) (hn : f.payload.length < 2 ^ 31)
    (hclose : opCodeAfter op f &&& 0x0f ≠ TYPE_CONNECTION_CLOSE)
    (hping : opCodeAfter op f &&& 0x0f ≠ TYPE_PING)
    (hpong : opCodeAfter op f &&& 0x0f ≠ TYPE_PONG) :
    ∃ w', poll n heap maskKey w = some (if f.payload = [] then none else
        some ⟨Fin.ofNat 16 (opCodeAfter op f &&& 0x0f).toNat, opCodeAfter op f &&& 0x80 ≠ 0,
          f.payload⟩, w') ∧ Waiting (opCodeAfter op f) rx tx w' := by
  obtain ⟨w₁, hread, hop, hidle, htx, hparse⟩ := parse_frame (n := n) maskKey h hn
  have htype : w₁.messageType = opCodeAfter op f &&& 0x0f := by rw [messageType, hop]
  have hsize : int32 w₁.iRxSize.toNat = f.payload.length := by
    have := hread.available
    rwa [WebSocketClient.available, if_pos hread.isOpen.reached] at this
  rw [htype, if_neg hclose, if_neg hping, if_neg hpong, Option.map_some, hsize] at hparse
  obtain ⟨i, hstring⟩ := readStringLoop_eq hheap hread ⟨[], 0⟩
  have hall : w₁.readString heap = (f.payload, w₁.left 0 i rx) := by
    rw [readString, hread.available]
    exact hstring
  rw [poll, hparse]
  simp only [Option.map_some]
  by_cases hnil : f.payload = []
  · have hrx : w₁.rx = rx := by
      rw [hread.rx, hnil]
      cases f.key with
      | none => rfl
      | some y => rfl
    have hzero : w₁.iRxSize = 0 := by rw [hread.size, hnil]; rfl
    refine ⟨w₁, ?_, hread.isOpen, hidle, hzero, hop, hrx, htx⟩
    rw [if_pos hnil, if_neg (by simp [hnil])]
  · have hpos : 0 < (f.payload.length : Int) := by
      have := List.length_pos_iff.mpr hnil
      omega
    refine ⟨w₁.left 0 i rx, ?_, ⟨hread.isOpen.state, hread.isOpen.plain, hread.isOpen.length⟩, hidle,
      rfl, hop, rfl, htx⟩
    rw [if_pos hpos, if_neg hnil, hall, htype, isFinal, hop]

variable (heap) in
/-- A frame that is taken for a ping: its octets go into an answer. -/
theorem parse_ping (h : Waiting op (ready f.bytes ++ rx) tx w) (hn : f.payload.length < 2 ^ 31)
    (hping : opCodeAfter op f &&& 0x0f = TYPE_PING) :
    ∃ w₂, Reading f.key 0 f.payload rx w₂ ∧ w₂.iTxStarted = true ∧
      w₂.iTxMessageType = TYPE_PONG &&& 0xf ∧ w₂.iTxBuffer = [] ∧
      w₂.iRxOpCode = opCodeAfter op f ∧ w₂.tx = tx ∧ poll n heap maskKey w =
        (pongLoop n w₂).map fun w => (none, { (w.endMessage maskKey).2 with iRxSize := 0 }) := by
  obtain ⟨w₁, hread, hop, hidle, htx, hparse⟩ := parse_frame (n := n) maskKey h hn
  have htype : w₁.messageType = TYPE_PING := by rw [messageType, hop, hping]
  have hclose : TYPE_PING ≠ TYPE_CONNECTION_CLOSE := by decide
  have hzero : int32 ((0 : UInt64).toNat : Int) = 0 := HttpClient.int32_of_lt (n := 0) (by decide)
  let w₂ : WebSocketClient :=
    { w₁ with iTxStarted := true, iTxMessageType := TYPE_PONG &&& 0xf, iTxBuffer := [] }
  have hbegin : (w₁.beginMessage TYPE_PONG).2 = w₂ := by
    rw [beginMessage, hidle]
    rfl
  rw [htype, if_neg hclose, if_pos rfl, hbegin, Option.map_map] at hparse
  refine ⟨w₂, ⟨hread.isOpen, hread.rx, hread.size, hread.fits, hread.masked, hread.mask⟩, rfl, rfl, rfl,
    hop, htx, ?_⟩
  rw [poll, hparse, Option.map_map]
  refine congrArg (Option.map · _) (funext fun w' => ?_)
  simp only [Function.comp_apply, hzero]
  rfl

variable (heap) in
/-- It is answered with its octets, and not delivered. -/
theorem poll_ping (h : Waiting op (ready f.bytes ++ rx) tx w) (hn : f.payload.length < 2 ^ 31)
    (hfits : f.payload.length ≤ n) (hping : opCodeAfter op f &&& 0x0f = TYPE_PING) :
    ∃ w', poll n heap maskKey w = some (none, w') ∧
      Waiting (opCodeAfter op f) rx (tx ++ messageBytes TYPE_PONG maskKey f.payload) w' := by
  obtain ⟨w₂, hread, hstarted, htype, hempty, hop, htx, hpoll⟩ :=
    parse_ping (n := n) heap maskKey h hn hping
  obtain ⟨i, hloop⟩ := pongLoop_eq hstarted hread (n := n) (by rw [hempty]; simpa using hfits)
  rw [hempty, List.nil_append] at hloop
  have hend := endMessage_eq (w := { w₂.left 0 i rx with iTxBuffer := f.payload })
    (sent_of_body hread.isOpen.reached) hstarted htype maskKey
  rw [hpoll, hloop, Option.map_some, hend]
  refine ⟨_, rfl, ⟨hread.isOpen.state, hread.isOpen.plain, hread.isOpen.length⟩, rfl, rfl, hop, rfl, ?_⟩
  rw [← htx]
  rfl

/-- Every frame that is taken for a ping is answered, or written past the end of the buffer if it has
more octets than fit. -/
theorem ping_within_iff (hbuf : 8 < n ∧ n < 2 ^ 31) (h : Waiting op (ready f.bytes ++ rx) tx w)
    (hn : f.payload.length < 2 ^ 31) (hping : opCodeAfter op f &&& 0x0f = TYPE_PING) :
    poll n heap maskKey w ≠ none ↔ f.payload.length ≤ n := by
  by_cases hfits : f.payload.length ≤ n
  · obtain ⟨w', hpoll, -⟩ := poll_ping heap maskKey h hn hfits hping
    rw [hpoll]
    exact iff_of_true (Option.some_ne_none _) hfits
  · obtain ⟨w₂, hread, hstarted, -, hempty, -, -, hpoll⟩ :=
      parse_ping (n := n) heap maskKey h hn hping
    have hnone := pongLoop_none hstarted hbuf hread (by rw [hempty]; exact Nat.zero_le n)
      (by rw [hempty]; simpa using hfits)
    rw [hpoll, hnone]
    exact iff_of_false (fun h => h rfl) hfits

/-- A frame that is taken for a pong is passed over. -/
theorem poll_pong (h : Waiting op (ready f.bytes ++ rx) tx w) (hn : f.payload.length < 2 ^ 31)
    (hpong : opCodeAfter op f &&& 0x0f = TYPE_PONG) :
    ∃ w', poll n heap maskKey w = some (none, w') ∧ Waiting (opCodeAfter op f) rx tx w' := by
  obtain ⟨w₁, hread, hop, hidle, htx, hparse⟩ := parse_frame (n := n) maskKey h hn
  have htype : w₁.messageType = TYPE_PONG := by rw [messageType, hop, hpong]
  have hclose : TYPE_PONG ≠ TYPE_CONNECTION_CLOSE := by decide
  have hping : TYPE_PONG ≠ TYPE_PING := by decide
  have hzero : int32 ((0 : UInt64).toNat : Int) = 0 := HttpClient.int32_of_lt (n := 0) (by decide)
  obtain ⟨i, hflush⟩ := flushRx_eq hread
  rw [htype, if_neg hclose, if_neg hping, if_pos rfl, hflush, Option.map_some, Option.map_some,
    hzero] at hparse
  rw [poll, hparse]
  exact ⟨_, rfl, ⟨hread.isOpen.state, hread.isOpen.plain, hread.isOpen.length⟩, hidle, rfl, hop, rfl,
    htx⟩

end Poll

/-- The client after the upgrade, with nothing to read. -/
def openClient : WebSocketClient :=
  { iServerName := none, iServerPort := 80, iState := .eReadingBody }

/-- A ping with more octets than the RFC allows. -/
def longPing : WebSocket.Frame := ⟨true, 9, none, List.replicate 129 0⟩

theorem ping_within_iff_long : poll 128 (fun _ => true) zeroKey
    (openClient.withRx (ready longPing.bytes ++ [])) = none := by
  have h : Waiting 0 (ready longPing.bytes ++ []) []
      (openClient.withRx (ready longPing.bytes ++ [])) :=
    ⟨⟨rfl, rfl, by decide⟩, rfl, rfl, rfl, rfl, rfl⟩
  have hlen : longPing.payload.length = 129 := List.length_replicate
  have hiff : poll 128 (fun _ => true) zeroKey (openClient.withRx (ready longPing.bytes ++ [])) ≠ none ↔
      longPing.payload.length ≤ 128 :=
    ping_within_iff zeroKey (by decide) h (by rw [hlen]; decide) rfl
  rw [hlen] at hiff
  exact not_not.mp (mt hiff.mp (by decide))

/-! ## Runs of polls -/

/-- `iRxOpCode` inside a message of type `cur`. -/
def Agrees (cur : Option (Fin 16)) (op : UInt8) : Prop :=
  ∀ t, cur = some t → t.val < 8 ∧ op = UInt8.ofNat t

theorem agrees_none (op : UInt8) : Agrees none op := by
  intro t ht
  cases ht

/-- The flag and the type of `iRxOpCode`. -/
theorem opcode_bits (fin : Bool) {t : Fin 16} (ht : t.val < 8) :
    Fin.ofNat 16 (UInt8.ofNat (WebSocket.flag fin + t) &&& 0x0f).toNat = t ∧
      (decide (UInt8.ofNat (WebSocket.flag fin + t) &&& 0x80 ≠ 0) = fin) ∧
      (UInt8.ofNat (WebSocket.flag fin + t) &&& 0x0f).toNat < 8 := by
  have hall : ∀ (fin : Bool) (k : Nat), k < 8 →
      (UInt8.ofNat (WebSocket.flag fin + k) &&& 0x0f).toNat = k ∧
      (decide (UInt8.ofNat (WebSocket.flag fin + k) &&& 0x80 ≠ 0) = fin) := by
    decide
  obtain ⟨h₁, h₂⟩ := hall fin t ht
  refine ⟨?_, h₂, by omega⟩
  rw [h₁]
  exact Fin.ext (Nat.mod_eq_of_lt t.isLt)

/-- `iRxOpCode` after a frame of a message is its flag and the type of the message. -/
theorem opCodeAfter_data {cur : Option (Fin 16)} {op : UInt8} (ha : Agrees cur op)
    {f : WebSocket.Frame} (hc : f.control = false) (hf : WebSocket.Follows cur f) :
    ∃ t : Fin 16, t.val < 8 ∧ opCodeAfter op f = UInt8.ofNat (WebSocket.flag f.fin + t) ∧
      WebSocket.part? cur f = some ⟨t, f.fin, f.payload⟩ ∧
      WebSocket.next cur f = if f.fin then none else some t := by
  have hlow : f.opcode.val < 8 := by
    have := of_decide_eq_false hc
    omega
  rw [WebSocket.Follows, hc, if_neg Bool.false_ne_true] at hf
  by_cases hz : f.opcode = 0
  · obtain ⟨t, ht⟩ := Option.isSome_iff_exists.mp (hf.1.mp hz)
    obtain ⟨hlt, rfl⟩ := ha t ht
    refine ⟨t, hlt, ?_, ?_, ?_⟩
    · have hor : ∀ (fin : Bool) (k : Nat), k < 8 →
          UInt8.ofNat k ||| UInt8.ofNat (WebSocket.flag fin + 0) =
            UInt8.ofNat (WebSocket.flag fin + k) := by decide
      rw [opCodeAfter, if_pos hz, firstOctet, hz]
      exact hor f.fin t hlt
    · rw [WebSocket.part?, hc, ht, if_pos hz]
      rfl
    · rw [WebSocket.next, hc, ht, if_pos hz]
      rfl
  · refine ⟨f.opcode, hlow, ?_, ?_, ?_⟩
    · rw [opCodeAfter, if_neg hz]
      rfl
    · rw [WebSocket.part?, hc, if_neg hz]
      rfl
    · rw [WebSocket.next, hc, if_neg hz]
      rfl

/-- What is sent for a frame. -/
def answer (maskKey : WebSocket.Key) (f : WebSocket.Frame) : List WebSocket.Frame :=
  if f.opcode = 9 then [messageFrame TYPE_PONG maskKey f.payload] else []

section Step

variable {n : Nat} (hn : 125 ≤ n) {heap : Nat → Bool} (hheap : ∀ k, heap k = true)
include hn hheap

/-- A frame in order: a part of a message is delivered unless it is empty, and a ping is answered. -/
theorem poll_step (maskKey : WebSocket.Key) {cur : Option (Fin 16)} {op : UInt8} {rx : List Item}
    {tx : Bytes} {w : WebSocketClient} {f : WebSocket.Frame}
    (h : Waiting op (ready f.bytes ++ rx) tx w) (ha : Agrees cur op)
    (hf : WebSocket.Follows cur f) :
    ∃ op' w', poll n heap maskKey w =
        some ((WebSocket.part? cur f).filter (·.payload ≠ []), w') ∧
      Waiting op' rx (tx ++ (answer maskKey f).flatMap WebSocket.Frame.bytes) w' ∧
      Agrees (WebSocket.next cur f) op' := by
  cases hc : f.control with
  | true =>
    have hpart : WebSocket.part? cur f = none := by
      rw [WebSocket.part?, hc]
      rfl
    have hnext : WebSocket.next cur f = cur := by
      rw [WebSocket.next, hc]
      rfl
    rw [WebSocket.Follows, hc, if_pos rfl] at hf
    obtain ⟨rfl, hop, hfin, hlen⟩ := hf
    rw [hpart, hnext]
    rcases hop with hop | hop
    · have hping : opCodeAfter op f &&& 0x0f = TYPE_PING := by
        rw [opCodeAfter, if_neg (by rw [hop]; decide), firstOctet, hop, hfin]
        rfl
      obtain ⟨w', hpoll, hw'⟩ := poll_ping heap maskKey h (by omega) (hlen.trans hn) hping
      rw [messageBytes_eq TYPE_PONG maskKey (by omega)] at hw'
      refine ⟨opCodeAfter op f, w', hpoll, ?_, agrees_none _⟩
      rw [answer, if_pos hop, List.flatMap_singleton]
      exact hw'
    · have hpong : opCodeAfter op f &&& 0x0f = TYPE_PONG := by
        rw [opCodeAfter, if_neg (by rw [hop]; decide), firstOctet, hop, hfin]
        rfl
      obtain ⟨w', hpoll, hw'⟩ := poll_pong maskKey h (by omega) hpong
      have hne : f.opcode ≠ 9 := by
        rw [hop]
        decide
      refine ⟨opCodeAfter op f, w', hpoll, ?_, agrees_none _⟩
      rw [answer, if_neg hne, List.flatMap_nil, List.append_nil]
      exact hw'
  | false =>
    obtain ⟨t, ht, hop, hpart, hnext⟩ := opCodeAfter_data ha hc hf
    obtain ⟨htype, hflag, hlow⟩ := opcode_bits f.fin ht
    have hne : f.opcode ≠ 9 := by
      intro h9
      have := of_decide_eq_false hc
      rw [h9] at this
      exact this (by decide)
    rw [WebSocket.Follows, hc, if_neg Bool.false_ne_true] at hf
    have hother : ∀ x : UInt8, 8 ≤ x.toNat → opCodeAfter op f &&& 0x0f ≠ x := by
      rintro x hx rfl
      rw [hop] at hx
      omega
    obtain ⟨w', hpoll, hw'⟩ := poll_data hheap maskKey h hf.2 (hother _ (by decide))
      (hother _ (by decide)) (hother _ (by decide))
    rw [hop, htype, hflag] at hpoll
    refine ⟨opCodeAfter op f, w', ?_, ?_, ?_⟩
    · rw [hpoll, hpart]
      by_cases hnil : f.payload = []
      · simp [hnil, Option.filter]
      · simp [hnil, Option.filter]
    · rw [answer, if_neg hne, List.flatMap_nil, List.append_nil]
      exact hw'
    · intro t' ht'
      rw [hnext] at ht'
      cases hfin : f.fin with
      | true =>
        rw [hfin] at ht'
        cases ht'
      | false =>
        rw [hfin] at ht'
        cases ht'
        rw [hop, hfin]
        exact ⟨ht, congrArg UInt8.ofNat (Nat.zero_add _)⟩

end Step

/-- Frames come in. -/
def arrive (fs : List WebSocket.Frame) (w : WebSocketClient) : WebSocketClient :=
  w.withRx (w.rx ++ ready (fs.flatMap WebSocket.Frame.bytes))

/-- The frames that come in before a poll, and the mask that the poll takes if it answers. -/
abbrev Input := List WebSocket.Frame × WebSocket.Key

/-- Poll after poll: the parts of messages that are delivered. -/
def polls (WS_TX_BUFFER_SIZE : Nat) (heap : Nat → Bool) : List Input → WebSocketClient →
    Option (List WebSocket.Part × WebSocketClient)
  | [], w => some ([], w)
  | (fs, maskKey) :: ins, w =>
    (poll WS_TX_BUFFER_SIZE heap maskKey (w.arrive fs)).bind fun r =>
      (polls WS_TX_BUFFER_SIZE heap ins r.2).map fun rs => (r.1.toList ++ rs.1, rs.2)

/-- The frames `done` have been read, and answered by `answers`. -/
structure Answers (done answers : List WebSocket.Frame) : Prop where
  masked : ∀ p ∈ answers, p.key.isSome = true
  pongs : answers.map (fun p => (p.fin, p.opcode, p.payload)) =
    (done.filter (·.opcode = 9)).map fun f => (true, 10, f.payload)

theorem Answers.cons {done answers : List WebSocket.Frame} (h : Answers done answers)
    (maskKey : WebSocket.Key) (f : WebSocket.Frame) :
    Answers (f :: done) (answer maskKey f ++ answers) := by
  unfold answer
  by_cases hop : f.opcode = 9
  · rw [if_pos hop]
    refine ⟨?_, ?_⟩
    · intro p hp
      rcases List.mem_cons.mp hp with rfl | hp
      · rfl
      · exact h.masked p hp
    · rw [List.filter_cons_of_pos (by simpa using hop)]
      exact congrArg₂ List.cons rfl h.pongs
  · rw [if_neg hop]
    refine ⟨h.masked, ?_⟩
    rw [List.filter_cons_of_neg (by simpa using hop)]
    exact h.pongs

theorem Waiting.arrive {op : UInt8} {rx : List Item} {tx : Bytes} {w : WebSocketClient}
    (h : Waiting op rx tx w) (fs : List WebSocket.Frame) :
    Waiting op (rx ++ ready (fs.flatMap WebSocket.Frame.bytes)) tx (w.arrive fs) :=
  ⟨withRx_open h.isOpen _, h.idle, h.size, h.opcode, congrArg (· ++ _) h.rx, h.tx⟩

/-- The frames that are left, where each poll takes one. -/
def backlog (n : Nat) (ins : List Input) : Nat := ins.foldl (fun q i => q + i.1.length - 1) n

section Runs

variable {n : Nat} (hn : 125 ≤ n) {heap : Nat → Bool} (hheap : ∀ k, heap k = true)
include hn hheap

/-- Over every run of polls, whatever frames come in before each of them, as long as each comes in
whole and no control frame stands inside a message: the frames are taken one a poll and in order, the
parts of messages among them are delivered once and in order with their types, unless they are empty,
and every ping among them is answered with its octets. -/
theorem frames_delivered {cur : Option (Fin 16)} {op : UInt8} {tx : Bytes} {w : WebSocketClient}
    {pending : List WebSocket.Frame}
    (h : Waiting op (ready (pending.flatMap WebSocket.Frame.bytes)) tx w) (ha : Agrees cur op)
    {ins : List Input} (ho : WebSocket.Orderly cur (pending ++ ins.flatMap (·.1))) :
    ∃ done rest answers op' w', polls n heap ins w =
        some ((WebSocket.parts cur done).filter (·.payload ≠ []), w') ∧
      done ++ rest = pending ++ ins.flatMap (·.1) ∧ rest.length = backlog pending.length ins ∧
      Answers done answers ∧ Agrees (WebSocket.nextAll cur done) op' ∧
      Waiting op' (ready (rest.flatMap WebSocket.Frame.bytes))
        (tx ++ answers.flatMap WebSocket.Frame.bytes) w' := by
  induction ins generalizing cur op tx w pending with
  | nil =>
    refine ⟨[], pending, [], op, w, rfl, (List.append_nil _).symm, rfl, ⟨nofun, rfl⟩, ha, ?_⟩
    rw [List.flatMap_nil, List.append_nil]
    exact h
  | cons i ins ih =>
    obtain ⟨fs, maskKey⟩ := i
    have hw := h.arrive fs
    rw [← ready_append, ← List.flatMap_append] at hw
    rw [List.flatMap_cons, ← List.append_assoc] at ho
    have hlen : backlog pending.length ((fs, maskKey) :: ins) =
        backlog ((pending ++ fs).length - 1) ins := by
      rw [List.length_append]
      rfl
    rw [polls, List.flatMap_cons, ← List.append_assoc, hlen]
    generalize pending ++ fs = queue at hw ho
    cases queue with
    | nil =>
      obtain ⟨done, rest, answers, op', w', hpolls, hrest⟩ := ih hw ha ho
      refine ⟨done, rest, answers, op', w', ?_, hrest⟩
      rw [poll_nothing maskKey hw, Option.bind_some, hpolls]
      rfl
    | cons f queue =>
      rw [List.flatMap_cons, ready_append] at hw
      obtain ⟨op₁, w₁, hpoll, hw₁, ha₁⟩ := poll_step hn hheap maskKey hw ha ho.1
      obtain ⟨done, rest, answers, op', w', hpolls, hdone, hcount, hanswers, ha', hw'⟩ :=
        ih hw₁ ha₁ ho.2
      refine ⟨f :: done, rest, answer maskKey f ++ answers, op', w', ?_, congrArg (f :: ·) hdone, hcount,
        hanswers.cons maskKey f, ha', ?_⟩
      · rw [hpoll, Option.bind_some, hpolls, WebSocket.parts, List.filter_append,
          ← Option.toList_filter]
        rfl
      · rw [List.flatMap_append, ← List.append_assoc]
        exact hw'

end Runs

theorem waiting_openClient : Waiting 0 [] [] openClient :=
  ⟨⟨rfl, rfl, by decide⟩, rfl, rfl, rfl, rfl, rfl⟩

def pingFrame : WebSocket.Frame := ⟨true, 9, none, text "a"⟩

/-- A message in two frames. -/
def helFrame : WebSocket.Frame := ⟨false, 1, none, text "hel"⟩

def loFrame : WebSocket.Frame := ⟨true, 0, none, text "lo"⟩

theorem frames_delivered_hello : ∃ w', polls 128 (fun _ => true)
    [([pingFrame, helFrame], zeroKey), ([loFrame], zeroKey), ([], zeroKey)] openClient =
      some ([⟨1, false, text "hel"⟩, ⟨1, true, text "lo"⟩], w') := by
  have ho : WebSocket.Orderly none ([] ++
      List.flatMap (·.1) [([pingFrame, helFrame], zeroKey), ([loFrame], zeroKey), ([], zeroKey)]) :=
    ⟨⟨rfl, .inl rfl, rfl, by decide⟩, ⟨by decide, by decide⟩, ⟨by decide, by decide⟩, trivial⟩
  obtain ⟨done, rest, answers, op', w', hpolls, hdone, hcount, -⟩ :=
    frames_delivered (n := 128) (by decide) (fun _ => rfl)
      waiting_openClient (agrees_none 0) ho
  have hrest : rest = [] := List.eq_nil_of_length_eq_zero hcount
  rw [hrest, List.append_nil] at hdone
  subst hdone
  exact ⟨w', hpolls⟩

/-! ## A control frame inside a message -/

/-- A continuation keeps the type of the frame before it, whatever that is. -/
theorem opCodeAfter_continuation {op : UInt8} {f : WebSocket.Frame} (hop : f.opcode = 0) :
    opCodeAfter op f &&& 0x0f = op &&& 0x0f := by
  have hlow := (firstOctet_low f).mpr hop
  rw [opCodeAfter, if_pos hop]
  refine UInt8.toNat.inj ?_
  have hnat : (firstOctet f).toNat &&& (0x0f : UInt8).toNat = 0 := by
    rw [← UInt8.toNat_and, hlow]
    rfl
  rw [UInt8.toNat_and, UInt8.toNat_or, Nat.and_or_distrib_right, hnat, Nat.or_zero,
    UInt8.toNat_and]

section Lost

variable {n : Nat} (hn : 125 ≤ n ∧ n < 65535) {heap : Nat → Bool}

theorem polls_idle (maskKey : WebSocket.Key) (ins : List Input) (w : WebSocketClient) :
    polls n heap (([], maskKey) :: ins) w = (poll n heap maskKey w).bind fun r =>
      (polls n heap ins r.2).map fun rs => (r.1.toList ++ rs.1, rs.2) := by
  have hsame : w.arrive [] = w := withRx_self (List.append_nil _).symm
  rw [polls, hsame]

include hn

variable (heap) in
/-- Behind a ping every continuation is taken for a ping. -/
theorem continuations_answered {conts : List WebSocket.Frame}
    (hconts : ∀ c ∈ conts, c.opcode = 0 ∧ c.payload.length ≤ n) {ks : List WebSocket.Key}
    (hks : ks.length = conts.length) {op : UInt8} (hop : op &&& 0x0f = TYPE_PING) {tx : Bytes}
    {w : WebSocketClient} (h : Waiting op (ready (conts.flatMap WebSocket.Frame.bytes)) tx w) :
    ∃ w', polls n heap (ks.map ([], ·)) w = some ([], w') ∧ w'.tx = tx ++
      (List.zipWith (messageFrame TYPE_PONG) ks (conts.map (·.payload))).flatMap
        WebSocket.Frame.bytes := by
  induction conts generalizing ks op tx w with
  | nil =>
    rw [List.length_nil, List.length_eq_zero_iff] at hks
    subst hks
    exact ⟨w, rfl, h.tx.trans (List.append_nil _).symm⟩
  | cons c conts ih =>
    obtain ⟨⟨hc, hlen⟩, hconts⟩ := List.forall_mem_cons.mp hconts
    cases ks with
    | nil => cases hks
    | cons maskKey ks =>
      rw [List.flatMap_cons, ready_append] at h
      have hping : opCodeAfter op c &&& 0x0f = TYPE_PING := (opCodeAfter_continuation hc).trans hop
      obtain ⟨w₁, hpoll, hw₁⟩ := poll_ping heap maskKey h (by omega) hlen hping
      rw [messageBytes_eq TYPE_PONG maskKey (by omega)] at hw₁
      obtain ⟨w', hpolls, htx⟩ := ih hconts (Nat.succ.inj hks) hping hw₁
      refine ⟨w', ?_, ?_⟩
      · rw [List.map_cons, polls_idle maskKey, hpoll, Option.bind_some, hpolls]
        rfl
      · rw [htx, List.append_assoc]
        rfl

/-- The RFC allows a ping between the frames of a message. The client then takes every frame of the
message behind the ping for a ping too: it answers with their octets, and delivers none of them. -/
theorem continuations_lost (hheap : ∀ k, heap k = true) {first ping : WebSocket.Frame}
    (hfirst : (first.opcode = 1 ∨ first.opcode = 2) ∧ first.fin = false ∧
      first.payload.length < 2 ^ 31)
    (hping : ping.opcode = 9 ∧ ping.fin = true ∧ ping.payload.length ≤ 125)
    {conts : List WebSocket.Frame} (hconts : ∀ c ∈ conts, c.opcode = 0 ∧ c.payload.length ≤ n)
    (k₀ : WebSocket.Key) {ks : List WebSocket.Key} (hks : ks.length = conts.length + 1) {op : UInt8}
    {tx : Bytes} {w : WebSocketClient}
    (h : Waiting op (ready ((first :: ping :: conts).flatMap WebSocket.Frame.bytes)) tx w) :
    (WebSocket.parts none (first :: ping :: conts)).map (·.payload) =
        first.payload :: conts.map (·.payload) ∧
      ∃ w', polls n heap ((k₀ :: ks).map ([], ·)) w =
          some ([⟨first.opcode, false, first.payload⟩].filter (·.payload ≠ []), w') ∧
        w'.tx = tx ++ (List.zipWith (messageFrame TYPE_PONG) ks
          (ping.payload :: conts.map (·.payload))).flatMap WebSocket.Frame.bytes := by
  obtain ⟨htype, hfin, hlen⟩ := hfirst
  obtain ⟨hop, hpfin, hplen⟩ := hping
  have hcontrol : first.control = false ∧ first.opcode ≠ 0 := by
    unfold WebSocket.Frame.control
    rcases htype with h | h
    · rw [h]
      decide
    · rw [h]
      decide
  refine ⟨?_, ?_⟩
  · have hpcontrol : ping.control = true := by
      rw [WebSocket.Frame.control, hop]
      rfl
    have hall : conts.filter (!·.control) = conts := by
      refine List.filter_eq_self.mpr fun c hc => ?_
      rw [WebSocket.Frame.control, (hconts c hc).1]
      rfl
    rw [WebSocket.parts_payload, List.filter_cons_of_pos (by rw [hcontrol.1]; rfl),
      List.filter_cons_of_neg (by rw [hpcontrol]; exact Bool.false_ne_true), hall]
    rfl
  · have hpart : WebSocket.part? none first = some ⟨first.opcode, false, first.payload⟩ := by
      rw [WebSocket.part?, hcontrol.1, if_neg hcontrol.2, hfin]
      rfl
    have hfollows : WebSocket.Follows none first := by
      rw [WebSocket.Follows, hcontrol.1, if_neg Bool.false_ne_true]
      exact ⟨⟨fun h => absurd h hcontrol.2, fun h => absurd h Bool.false_ne_true⟩, hlen⟩
    cases ks with
    | nil => cases hks
    | cons k₁ ks =>
      rw [List.flatMap_cons, ready_append] at h
      obtain ⟨op₁, w₁, hpoll₁, hw₁, -⟩ := poll_step hn.1 hheap k₀ h (agrees_none op) hfollows
      have hne : first.opcode ≠ 9 := by
        rintro h9
        rw [WebSocket.Frame.control, h9] at hcontrol
        cases hcontrol.1
      rw [answer, if_neg hne, List.flatMap_nil, List.append_nil, List.flatMap_cons, ready_append] at hw₁
      have hping : opCodeAfter op₁ ping &&& 0x0f = TYPE_PING := by
        rw [opCodeAfter, if_neg (by rw [hop]; decide), firstOctet, hop, hpfin]
        rfl
      obtain ⟨w₂, hpoll₂, hw₂⟩ := poll_ping (n := n) heap k₁ hw₁ (by omega) (by omega) hping
      rw [messageBytes_eq TYPE_PONG k₁ (by omega)] at hw₂
      obtain ⟨w', hpolls, htx⟩ :=
        continuations_answered hn heap hconts (Nat.succ.inj hks) hping hw₂
      refine ⟨w', ?_, ?_⟩
      · rw [List.map_cons, List.map_cons, polls_idle, hpoll₁, Option.bind_some, polls_idle, hpoll₂,
          Option.bind_some, hpolls, hpart]
        by_cases hnil : first.payload = []
        · simp [hnil]
        · simp [hnil]
      · rw [htx, List.append_assoc]
        rfl

end Lost

/-- `lo` goes back in an answer. -/
theorem continuations_lost_hello : ∃ w', polls 128 (fun _ => true)
    [([], zeroKey), ([], zeroKey), ([], zeroKey)]
    (openClient.withRx (ready ([helFrame, pingFrame, loFrame].flatMap WebSocket.Frame.bytes))) =
      some ([⟨1, false, text "hel"⟩], w') ∧
    w'.tx = [messageFrame TYPE_PONG zeroKey (text "a"),
      messageFrame TYPE_PONG zeroKey (text "lo")].flatMap WebSocket.Frame.bytes := by
  have hconts : ∀ c ∈ [loFrame], c.opcode = 0 ∧ c.payload.length ≤ 128 :=
    List.forall_mem_singleton.mpr ⟨rfl, by decide⟩
  have h : Waiting 0 (ready ([helFrame, pingFrame, loFrame].flatMap WebSocket.Frame.bytes)) []
      (openClient.withRx (ready ([helFrame, pingFrame, loFrame].flatMap WebSocket.Frame.bytes))) :=
    ⟨⟨rfl, rfl, by decide⟩, rfl, rfl, rfl, rfl, rfl⟩
  have hks : [zeroKey, zeroKey].length = [loFrame].length + 1 := rfl
  exact (continuations_lost (n := 128) (by decide) (fun _ => rfl) ⟨.inl rfl, rfl, by decide⟩
    ⟨rfl, rfl, by decide⟩ hconts zeroKey hks h).2

end WebSocketClient
end Http
end TimerCam

import TimerCam.Http.Request
import TimerCam.Lib.WebSocket

/-!
# Http.WebSocket

`WebSocketClient` of the library `ArduinoHttpClient`, and what it sends.

* `parseMessage`, `read`      : frames that come in.
* `message_read_back_iff`     : a message is sent as one frame that holds it, whatever the mask.
* `write_within_iff`          : which writes stay inside `iTxBuffer`.
-/

namespace TimerCam
namespace Http

open Octets Wire

def TYPE_TEXT : UInt8 := 0x1
def TYPE_CONNECTION_CLOSE : UInt8 := 0x8
def TYPE_PING : UInt8 := 0x9
def TYPE_PONG : UInt8 := 0xa

/-- `iTxBuffer` up to `iTxSize`. -/
structure WebSocketClient extends HttpClient where
  iTxStarted : Bool := false
  iTxMessageType : UInt8 := 0
  iTxBuffer : Bytes := []
  iRxOpCode : UInt8 := 0
  iRxSize : UInt64 := 0
  iRxMasked : Bool := false
  iRxMaskIndex : Nat := 0
  iRxMaskKey : WebSocket.Key := WebSocket.zeroKey

namespace WebSocketClient

/-! ## Messages that are sent -/

def beginMessage (aType : UInt8) (w : WebSocketClient) : Int × WebSocketClient :=
  if w.iTxStarted then (1, w)
  else (0, { w with iTxStarted := true, iTxMessageType := aType &&& 0xf, iTxBuffer := [] })

/-- `HttpClient::write` of some octets. -/
def send (s : Bytes) (w : WebSocketClient) : WebSocketClient :=
  { w with toHttpClient := w.toHttpClient.write s }

def octet (n : Nat) : UInt8 := UInt8.ofNat n

/-- The header that `endMessage` sends for a message of `iTxSize` octets. -/
def sendHead (iTxMessageType : UInt8) (iTxSize : Nat) (w : WebSocketClient) : WebSocketClient :=
  let w := w.send [0x80 ||| iTxMessageType]
  if iTxSize < 126 then w.send [0x80 ||| octet iTxSize]
  else if iTxSize < 0xffff then
    ((w.send [0x80 ||| 126]).send [octet (iTxSize >>> 8)]).send [octet iTxSize]
  else
    ((((((((w.send [0x80 ||| 127]).send [octet (iTxSize >>> 56)]).send [octet (iTxSize >>> 48)]).send
      [octet (iTxSize >>> 40)]).send [octet (iTxSize >>> 32)]).send [octet (iTxSize >>> 24)]).send
      [octet (iTxSize >>> 16)]).send [octet (iTxSize >>> 8)]).send [octet iTxSize]

/-- `maskKey` is what `random` gives. -/
def endMessage (maskKey : WebSocket.Key) (w : WebSocketClient) : Int × WebSocketClient :=
  if w.iTxStarted = false then (1, w)
  else
    let sent := ((w.sendHead w.iTxMessageType w.iTxBuffer.length).send maskKey.toList).send
      (WebSocket.unmask maskKey 0 w.iTxBuffer)
    (0, { sent with iTxStarted := false, iTxBuffer := [] })

/-- `sizeof(iTxSize) - iTxSize`, as a `size_t` of 32 bits. -/
def leftOf (iTxSize : Nat) : Nat := (2 ^ 64 + 8 - iTxSize) % 2 ^ 64 % 2 ^ 32

/-- `write(aBuffer, aSize)`, with a buffer of `WS_TX_BUFFER_SIZE` octets. `none` is a copy past its
end, or past that of `aBuffer`. -/
def write (WS_TX_BUFFER_SIZE : Nat) (aBuffer : Bytes) (w : WebSocketClient) :
    Option (Nat × WebSocketClient) :=
  if w.endOfHeadersReached = false then some (aBuffer.length, w.send aBuffer)
  else if w.iTxStarted = false then some (0, w)
  else
    let iTxSize := w.iTxBuffer.length
    let aSize := if iTxSize + aBuffer.length > WS_TX_BUFFER_SIZE then leftOf iTxSize
      else aBuffer.length
    if iTxSize + aSize ≤ WS_TX_BUFFER_SIZE ∧ aSize ≤ aBuffer.length then
      some (aSize, { w with iTxBuffer := w.iTxBuffer ++ aBuffer.take aSize })
    else none

/-- `pingData` is what `random` gives. -/
def ping (WS_TX_BUFFER_SIZE : Nat) (pingData : Vector UInt8 16) (maskKey : WebSocket.Key)
    (w : WebSocketClient) : Option (Int × WebSocketClient) :=
  ((w.beginMessage TYPE_PING).2.write WS_TX_BUFFER_SIZE pingData.toList).map fun r =>
    r.2.endMessage maskKey

/-! ## Messages that come in -/

/-- `int available()` -/
def available (w : WebSocketClient) : Int :=
  if w.endOfHeadersReached then int32 w.iRxSize.toNat else Wire.available w.rx

/-- `read(aBuffer, aSize)` -/
def readBuf (aSize : Nat) (w : WebSocketClient) : Bytes × WebSocketClient :=
  let r := w.toHttpClient.readBuf aSize
  let w' := { w with toHttpClient := r.2 }
  if 0 < r.1.length then
    let w' := { w' with iRxSize := w.iRxSize - UInt64.ofNat r.1.length }
    if w.iRxMasked then
      (WebSocket.unmask w.iRxMaskKey w.iRxMaskIndex r.1,
        { w' with iRxMaskIndex := w.iRxMaskIndex + aSize })
    else (r.1, w')
  else (r.1, w')

/-- `int read()`; `none` is -1. -/
def read (w : WebSocketClient) : Option UInt8 × WebSocketClient :=
  let r := w.readBuf 1
  (r.1.head?, r.2)

theorem read_rx (w : WebSocketClient) : w.read.2.rx = w.rx.drop (min 1 (Wire.available w.rx)) := by
  have hbuf : (w.toHttpClient.readBuf 1).2.rx = w.rx.drop (min 1 (Wire.available w.rx)) := by
    unfold HttpClient.readBuf
    simp only
    split
    · rfl
    · rfl
  rw [← hbuf]
  unfold read readBuf
  simp only
  split
  · split
    · rfl
    · rfl
  · rfl

/-- `while (available()) read();` `none` is a loop that never ends, since nothing more comes. -/
def flushRx (w : WebSocketClient) : Option WebSocketClient :=
  if w.available = 0 then some w
  else
    match _hw : w.rx with
    | [] => none
    | .pause _ :: rx => flushRx { w with rx := rx }
    | .octet _ :: _ => flushRx w.read.2
termination_by w.rx.length
decreasing_by
  · simp [_hw]
  · rw [read_rx, _hw]
    simp [Wire.available]

theorem write_rx {n : Nat} {s : Bytes} {w : WebSocketClient} {r : Nat × WebSocketClient}
    (h : w.write n s = some r) : r.2.rx = w.rx := by
  unfold write at h
  split at h
  · cases h
    unfold send HttpClient.write HttpClient.beginBody
    split
    · rfl
    · rfl
  · split at h
    · cases h
      rfl
    · obtain ⟨a, h⟩ : ∃ a, (if w.iTxBuffer.length + a ≤ n ∧ a ≤ s.length then
          some (a, { w with iTxBuffer := w.iTxBuffer ++ s.take a }) else none) = some r := ⟨_, h⟩
      split at h
      · cases h
        rfl
      · cases h

/-- `while (available()) write(read());` Where an octet is late, the loop writes 0xff for the -1 of
`read`, over and over, until it writes past the end of `iTxBuffer`. -/
def pongLoop (WS_TX_BUFFER_SIZE : Nat) (w : WebSocketClient) : Option WebSocketClient :=
  if w.available = 0 then some w
  else
    match _hw : w.rx with
    | .octet _ :: _ =>
      match _hr : w.read.2.write WS_TX_BUFFER_SIZE [w.read.1.getD 0xff] with
      | none => none
      | some r => pongLoop WS_TX_BUFFER_SIZE r.2
    | _ => none
termination_by w.rx.length
decreasing_by
  rw [write_rx _hr, read_rx, _hw]
  simp [Wire.available]

/-- `HttpClient::read()` as an `int`. Where the response had chunks it asks the client's own
`available()`, the size of the frame, before it takes an octet. -/
def readInt (w : WebSocketClient) : Int × WebSocketClient :=
  if w.iIsChunked ∧ w.available = 0 then (-1, w)
  else
    let r := w.toHttpClient.takeOctet
    ((match r.1 with
      | some c => (c.toNat : Int)
      | none => -1), { w with toHttpClient := r.2 })

/-- The `size` next values of `HttpClient::read()`, read from left to right. -/
def readInts : Nat → WebSocketClient → List Int × WebSocketClient
  | 0, w => ([], w)
  | n + 1, w =>
    let r := w.readInt
    let rs := readInts n r.2
    (r.1 :: rs.1, rs.2)

/-- `(x₀ << 8 * (n - 1)) | ... | xₙ₋₁` in a `uint64_t`. -/
def orShifted : List Int → UInt64
  | [] => 0
  | x :: xs => (UInt64.ofInt x <<< UInt64.ofNat (8 * xs.length)) ||| orShifted xs

def messageType (w : WebSocketClient) : UInt8 := w.iRxOpCode &&& 0x0f

def isFinal (w : WebSocketClient) : Bool := w.iRxOpCode &&& 0x80 ≠ 0

/-- `iRxSize`, by the seven bits of `length` or the octets behind it. -/
def readSize (length : Int) (w : WebSocketClient) : UInt64 × WebSocketClient :=
  if length < 126 then (UInt64.ofInt length, w)
  else
    let rs := w.readInts (if length = 126 then 2 else 8)
    (orShifted rs.1, rs.2)

def withSize (iRxSize : UInt64) (w : WebSocketClient) : WebSocketClient :=
  { w with iRxSize := iRxSize }

def withHead (iRxOpCode : UInt8) (iRxMasked : Bool) (w : WebSocketClient) : WebSocketClient :=
  { w with iRxOpCode := iRxOpCode, iRxMasked := iRxMasked }

def withKey (iRxMaskKey : WebSocket.Key) (w : WebSocketClient) : WebSocketClient :=
  { w with iRxMaskKey := iRxMaskKey }

/-- `iRxMaskKey`, if there is one. -/
def readMask (w : WebSocketClient) : WebSocketClient :=
  if w.iRxMasked then
    let rs := w.readInts 4
    let key := rs.1.map UInt8.ofInt
    rs.2.withKey (WebSocket.keyOf key)
  else w

/-- What `parseMessage` reads of a frame before its octets. -/
def parseHead (w : WebSocketClient) : WebSocketClient :=
  let r := w.readInt
  let opcode := UInt8.ofInt r.1
  let iRxOpCode := if opcode &&& 0x0f = 0 then w.iRxOpCode ||| opcode else opcode
  let r := r.2.readInt
  let length := r.1 % 256
  let r := (r.2.withHead iRxOpCode (128 ≤ length)).readSize (length % 128)
  { (r.2.withSize r.1).readMask with iRxMaskIndex := 0 }

/-- `stop()`, and the rest of the frame. -/
def closed (w : WebSocketClient) : Option WebSocketClient :=
  w.flushRx.map fun w => { w with toHttpClient := w.toHttpClient.stop, iRxSize := 0 }

/-- `maskKey` is what `random` gives if a `PONG` is sent. -/
def parseMessage (WS_TX_BUFFER_SIZE : Nat) (maskKey : WebSocket.Key) (w : WebSocketClient) :
    Option (Int × WebSocketClient) :=
  w.flushRx.bind fun w =>
    let r := w.toHttpClient.available
    let w := { w with toHttpClient := r.2 }
    if r.1 < 2 then some (0, w)
    else
      let w := w.parseHead
      (if w.messageType = TYPE_CONNECTION_CLOSE then w.closed
       else if w.messageType = TYPE_PING then
        (pongLoop WS_TX_BUFFER_SIZE (w.beginMessage TYPE_PONG).2).map fun w =>
          { (w.endMessage maskKey).2 with iRxSize := 0 }
       else if w.messageType = TYPE_PONG then w.flushRx.map fun w => { w with iRxSize := 0 }
       else some w).map fun w => (int32 w.iRxSize.toNat, w)

/-- The loop of `readString`, over `avail` octets. -/
def readStringLoop (heap : Nat → Bool) : Nat → Builder UInt8 → WebSocketClient →
    Bytes × WebSocketClient
  | 0, s, w => (s.text, w)
  | avail + 1, s, w =>
    let r := w.read
    readStringLoop heap avail (s.append heap [r.1.getD 0xff]) r.2

/-- `readString`, whose appends are numbered from 0 on. -/
def readString (heap : Nat → Bool) (w : WebSocketClient) : Bytes × WebSocketClient :=
  readStringLoop heap w.available.toNat ⟨[], 0⟩ w

/-! ## What is sent -/

section Sent

variable {w : WebSocketClient} (hs : w.iState.beforeSent = false)
include hs

theorem send_eq (s : Bytes) : w.send s = { w with toHttpClient := w.toHttpClient.print s } := by
  rw [send, HttpClient.write, HttpClient.beginBody, hs]
  rfl

theorem send_send (s t : Bytes) : (w.send s).send t = w.send (s ++ t) := by
  rw [send_eq hs s, send_eq (w := { w with toHttpClient := w.toHttpClient.print s }) hs t,
    send_eq hs (s ++ t)]
  simp only [HttpClient.print_print]

end Sent

/-- The octets of the length that `endMessage` sends. -/
def sentLength (n : Nat) : Bytes :=
  if n < 126 then [0x80 ||| octet n]
  else if n < 0xffff then [0x80 ||| 126, octet (n >>> 8), octet n]
  else
    [0x80 ||| 127, octet (n >>> 56), octet (n >>> 48), octet (n >>> 40), octet (n >>> 32),
      octet (n >>> 24), octet (n >>> 16), octet (n >>> 8), octet n]

theorem sendHead_eq {w : WebSocketClient} (hs : w.iState.beforeSent = false) (t : UInt8) (n : Nat) :
    w.sendHead t n = w.send ((0x80 ||| t) :: sentLength n) := by
  unfold sendHead sentLength
  simp only
  split
  · rw [send_send hs]
    rfl
  · split
    · simp only [send_send hs]
      rfl
    · simp only [send_send hs]
      rfl

theorem octet_mod (n : Nat) : octet n = UInt8.ofNat (n % 256) := by
  refine UInt8.toNat.inj ?_
  simp [octet]

theorem be_two (n : Nat) : WebSocket.be 2 n = [octet (n >>> 8), octet n] := by
  simp [WebSocket.be, ← octet_mod, Nat.shiftRight_eq_div_pow]

theorem be_eight (n : Nat) : WebSocket.be 8 n =
    [octet (n >>> 56), octet (n >>> 48), octet (n >>> 40), octet (n >>> 32), octet (n >>> 24),
      octet (n >>> 16), octet (n >>> 8), octet n] := by
  simp [WebSocket.be, ← octet_mod, Nat.shiftRight_eq_div_pow]

theorem or_flag {n : Nat} (h : n < 128) : 0x80 ||| octet n = UInt8.ofNat (128 + n) := by
  have hn : (octet n).toNat = n := UInt8.toNat_ofNat_of_lt' (Nat.lt_trans h (by decide))
  have hsum : (UInt8.ofNat (128 + n)).toNat = 128 + n :=
    UInt8.toNat_ofNat_of_lt' (by simp only [UInt8.size]; omega)
  refine UInt8.toNat.inj ?_
  rw [UInt8.toNat_or, hn, hsum]
  exact (Nat.two_pow_add_eq_or_of_lt (i := 7) h 1).symm

/-- Only for one length the field is not the shortest. -/
theorem sentLength_eq {n : Nat} (h : n ≠ 65535) : sentLength n = WebSocket.lengthField true n := by
  have h126 : (0x80 ||| 126 : UInt8) = UInt8.ofNat (WebSocket.flag true + 126) := rfl
  have h127 : (0x80 ||| 127 : UInt8) = UInt8.ofNat (WebSocket.flag true + 127) := rfl
  unfold sentLength WebSocket.lengthField
  by_cases h₁ : n < 126
  · rw [if_pos h₁, if_pos h₁, or_flag (by omega)]
    rfl
  · by_cases h₂ : n < 0xffff
    · rw [if_neg h₁, if_pos h₂, if_neg h₁, if_pos (by omega), be_two, h126]
    · rw [if_neg h₁, if_neg h₂, if_neg h₁, if_neg (by omega), be_eight, h127]

/-- The frame of a message. -/
def messageFrame (aType : UInt8) (maskKey : WebSocket.Key) (s : Bytes) : WebSocket.Frame :=
  { fin := true, opcode := Fin.ofNat 16 aType.toNat, key := some maskKey, payload := s }

theorem toNat_and_0f (c : UInt8) : (c &&& 0xf).toNat = c.toNat % 16 := by
  rw [UInt8.toNat_and]
  exact Nat.and_two_pow_sub_one_eq_mod c.toNat 4

/-- What `endMessage` sends. -/
def messageBytes (aType : UInt8) (maskKey : WebSocket.Key) (s : Bytes) : Bytes :=
  (0x80 ||| (aType &&& 0xf)) :: sentLength s.length ++ maskKey.toList ++
    WebSocket.unmask maskKey 0 s

theorem messageBytes_eq (aType : UInt8) (maskKey : WebSocket.Key) {s : Bytes}
    (hlen : s.length ≠ 65535) :
    messageBytes aType maskKey s = (messageFrame aType maskKey s).bytes := by
  have htype : 0x80 ||| (aType &&& 0xf) = UInt8.ofNat (128 + aType.toNat % 16) := by
    have hlow : aType &&& 0xf = octet (aType.toNat % 16) := by
      refine UInt8.toNat.inj ?_
      rw [toNat_and_0f]
      exact (UInt8.toNat_ofNat_of_lt' (by simp only [UInt8.size]; omega)).symm
    rw [hlow, or_flag (by omega)]
  rw [messageBytes, htype, sentLength_eq hlen]
  rfl

theorem message_read (aType : UInt8) (maskKey : WebSocket.Key) {s : Bytes}
    (hlen : s.length ≠ 65535) (hs : s.length < 2 ^ 63) :
    WebSocket.frame? (messageBytes aType maskKey s) = some (messageFrame aType maskKey s, []) := by
  have := WebSocket.frame?_bytes (f := messageFrame aType maskKey s) hs []
  rwa [List.append_nil, ← messageBytes_eq aType maskKey hlen] at this

/-- 65535 octets are announced in the form for more than that. -/
theorem message_refused (aType : UInt8) (maskKey : WebSocket.Key) {s : Bytes}
    (hlen : s.length = 65535) : WebSocket.frame? (messageBytes aType maskKey s) = none := by
  have hfield : sentLength 65535 = 255 :: WebSocket.be 8 65535 := by
    rw [sentLength, if_neg (by decide), if_neg (by decide), be_eight]
    rfl
  have hnone : WebSocket.length? 127 (WebSocket.be 8 65535 ++
      (maskKey.toList ++ WebSocket.unmask maskKey 0 s)) = none := by
    have hvalue : WebSocket.ofBe ((WebSocket.be 8 65535 ++
        (maskKey.toList ++ WebSocket.unmask maskKey 0 s)).take 8) = 65535 := by
      rw [List.take_left' (WebSocket.length_be 8 65535), WebSocket.ofBe_be (by decide)]
    rw [WebSocket.length?, if_neg (by decide)]
    simp only [if_neg (show ¬ (127 = 126) by decide), hvalue]
    exact if_neg fun h => absurd h.2.1 (by decide)
  have h255 : (255 : UInt8).toNat % 128 = 127 := rfl
  rw [messageBytes, hlen, hfield]
  simp only [List.cons_append, List.append_assoc, WebSocket.frame?, h255, hnone, ite_self]

theorem endMessage_eq {w : WebSocketClient} (hs : w.iState.beforeSent = false)
    (ht : w.iTxStarted = true) {aType : UInt8} (htype : w.iTxMessageType = aType &&& 0xf)
    (maskKey : WebSocket.Key) : w.endMessage maskKey = (0,
      { w with
        toHttpClient := w.toHttpClient.print (messageBytes aType maskKey w.iTxBuffer)
        iTxStarted := false, iTxBuffer := [] }) := by
  have hbytes : (0x80 ||| w.iTxMessageType) :: sentLength w.iTxBuffer.length ++ maskKey.toList ++
      WebSocket.unmask maskKey 0 w.iTxBuffer = messageBytes aType maskKey w.iTxBuffer := by
    rw [htype]
    rfl
  rw [endMessage, if_neg (by rw [ht]; exact Bool.false_ne_true.symm)]
  simp only [sendHead_eq hs, send_send hs]
  rw [hbytes, send_eq hs]

theorem sent_of_body {h : HttpClient} (hs : h.endOfHeadersReached = true) :
    h.iState.beforeSent = false := by
  cases he : h.iState with
  | eIdle => simp [HttpClient.endOfHeadersReached, he] at hs
  | eRequestStarted => simp [HttpClient.endOfHeadersReached, he] at hs
  | _ => rfl

section Writes

variable {n : Nat} {w : WebSocketClient} (hs : w.endOfHeadersReached = true)
  (ht : w.iTxStarted = true)
include hs ht

theorem write_eq (s : Bytes) : w.write n s =
    let aSize := if w.iTxBuffer.length + s.length > n then leftOf w.iTxBuffer.length else s.length
    if w.iTxBuffer.length + aSize ≤ n ∧ aSize ≤ s.length then
      some (aSize, { w with iTxBuffer := w.iTxBuffer ++ s.take aSize }) else none := by
  rw [write, if_neg (by rw [hs]; exact Bool.false_ne_true.symm),
    if_neg (by rw [ht]; exact Bool.false_ne_true.symm)]

theorem write_fits {s : Bytes} (hfits : w.iTxBuffer.length + s.length ≤ n) :
    w.write n s = some (s.length, { w with iTxBuffer := w.iTxBuffer ++ s }) := by
  have hsize : (if w.iTxBuffer.length + s.length > n then leftOf w.iTxBuffer.length else s.length) =
      s.length := if_neg (Nat.not_lt.mpr hfits)
  simp only [write_eq hs ht, hsize]
  rw [if_pos ⟨hfits, Nat.le_refl _⟩, List.take_length]

/-- A write that does not fit copies past the end of the buffer, unless at most eight octets are in it:
then it adds no more than makes eight. -/
theorem write_within_iff (hbuf : 8 ≤ n ∧ n < 2 ^ 31) (hle : w.iTxBuffer.length ≤ n) (s : Bytes) :
    w.write n s ≠ none ↔ w.iTxBuffer.length + s.length ≤ n ∨ w.iTxBuffer.length ≤ 8 := by
  by_cases hfits : w.iTxBuffer.length + s.length ≤ n
  · rw [write_fits hs ht hfits]
    exact iff_of_true (Option.some_ne_none _) (.inl hfits)
  · have hsize : (if w.iTxBuffer.length + s.length > n then leftOf w.iTxBuffer.length
        else s.length) = leftOf w.iTxBuffer.length := if_pos (Nat.not_le.mp hfits)
    simp only [write_eq hs ht, hsize, or_iff_right hfits]
    by_cases hshort : w.iTxBuffer.length ≤ 8
    · have hleft : leftOf w.iTxBuffer.length = 8 - w.iTxBuffer.length := by
        unfold leftOf
        omega
      rw [if_pos (by omega)]
      exact iff_of_true (Option.some_ne_none _) hshort
    · have hleft : leftOf w.iTxBuffer.length = 2 ^ 32 + 8 - w.iTxBuffer.length := by
        unfold leftOf
        omega
      rw [if_neg (by omega)]
      exact iff_of_false (fun h => h rfl) hshort

end Writes

/-- A client with a message begun, and so many octets in its buffer. -/
def fullClient (k : Nat) : WebSocketClient :=
  { iServerName := none, iServerPort := 80, iState := .eReadingBody, iTxStarted := true
    iTxBuffer := List.replicate k 0 }

theorem write_within_iff_full : ((fullClient 9).write 128 (List.replicate 120 0) = none) ∧
    (fullClient 8).write 128 (List.replicate 121 0) ≠ none := by
  have hover := write_within_iff (w := fullClient 9) (n := 128) rfl rfl (by decide) (by decide)
    (List.replicate 120 0)
  have hfits := write_within_iff (w := fullClient 8) (n := 128) rfl rfl (by decide) (by decide)
    (List.replicate 121 0)
  exact ⟨not_not.mp (mt hover.mp (by decide)), hfits.mpr (by decide)⟩

/-- Writes one after the other. -/
def writeAll (n : Nat) : List Bytes → WebSocketClient → Option WebSocketClient
  | [], w => some w
  | s :: ss, w => (w.write n s).bind fun r => writeAll n ss r.2

theorem writeAll_fits {n : Nat} {ss : List Bytes} {w : WebSocketClient}
    (hs : w.endOfHeadersReached = true) (ht : w.iTxStarted = true)
    (hfits : w.iTxBuffer.length + ss.flatten.length ≤ n) :
    writeAll n ss w = some { w with iTxBuffer := w.iTxBuffer ++ ss.flatten } := by
  induction ss generalizing w with
  | nil => rw [writeAll, List.flatten_nil, List.append_nil]
  | cons s ss ih =>
    rw [List.flatten_cons, List.length_append] at hfits
    rw [writeAll, write_fits hs ht (by omega), Option.bind_some,
      ih (w := { w with iTxBuffer := w.iTxBuffer ++ s }) hs ht
        (by simp only [List.length_append]; omega), List.flatten_cons, List.append_assoc]

/-- Whatever is written, no more than the buffer holds is kept. -/
theorem writeAll_within {n : Nat} {ss : List Bytes} {w w' : WebSocketClient}
    (hs : w.endOfHeadersReached = true) (ht : w.iTxStarted = true) (hle : w.iTxBuffer.length ≤ n)
    (h : writeAll n ss w = some w') :
    ∃ b, w' = { w with iTxBuffer := b } ∧ b.length ≤ n := by
  induction ss generalizing w with
  | nil =>
    cases h
    exact ⟨_, rfl, hle⟩
  | cons s ss ih =>
    obtain ⟨r, hr, hrest⟩ := Option.bind_eq_some_iff.mp h
    rw [write_eq hs ht] at hr
    simp only at hr
    generalize (if w.iTxBuffer.length + s.length > n then leftOf w.iTxBuffer.length else s.length) =
      a at hr
    split at hr
    · rename_i hfits
      cases hr
      obtain ⟨b, rfl, hb⟩ := ih (w := { w with iTxBuffer := w.iTxBuffer ++ s.take a }) hs ht
        (by simp only [List.length_append, List.length_take]; omega) hrest
      exact ⟨b, rfl, hb⟩
    · cases hr

/-- `beginMessage`, writes, and `endMessage`. -/
def sendMessage (n : Nat) (aType : UInt8) (maskKey : WebSocket.Key) (ss : List Bytes)
    (w : WebSocketClient) : Option WebSocketClient :=
  (writeAll n ss (w.beginMessage aType).2).map fun w => (w.endMessage maskKey).2

/-- Whatever is written, in any pieces and under any mask, one frame is sent that a strict reader takes
for the message exactly when the message fits into the buffer and has not 65535 octets. -/
theorem message_read_back_iff {n : Nat} (hn : n < 2 ^ 31) {w : WebSocketClient}
    (hs : w.endOfHeadersReached = true) (ht : w.iTxStarted = false) (aType : UInt8)
    (maskKey : WebSocket.Key) (ss : List Bytes) :
    (∃ w' sent, sendMessage n aType maskKey ss w = some w' ∧ w'.tx = w.tx ++ sent ∧
      WebSocket.frame? sent = some (messageFrame aType maskKey ss.flatten, [])) ↔
      ss.flatten.length ≤ n ∧ ss.flatten.length ≠ 65535 := by
  let w₁ : WebSocketClient :=
    { w with iTxStarted := true, iTxMessageType := aType &&& 0xf, iTxBuffer := [] }
  have hbegin : (w.beginMessage aType).2 = w₁ := by
    rw [beginMessage, ht]
    rfl
  have hend : ∀ b, ((({ w₁ with iTxBuffer := b } : WebSocketClient)).endMessage maskKey).2.tx =
      w.tx ++ messageBytes aType maskKey b := by
    intro b
    rw [endMessage_eq (w := { w₁ with iTxBuffer := b }) (sent_of_body hs) rfl rfl]
    rfl
  rw [sendMessage, hbegin]
  constructor
  · rintro ⟨w', sent, hsent, htx, hread⟩
    obtain ⟨w₂, hwrites, rfl⟩ := Option.map_eq_some_iff.mp hsent
    obtain ⟨b, rfl, hb⟩ := writeAll_within (w := w₁) hs rfl (Nat.zero_le n) hwrites
    rw [hend b] at htx
    rw [← List.append_cancel_left htx] at hread
    have hlen : b.length ≠ 65535 := by
      intro hbad
      rw [message_refused aType maskKey hbad] at hread
      cases hread
    rw [message_read aType maskKey hlen (by omega)] at hread
    have hb' : b = ss.flatten := congrArg WebSocket.Frame.payload
      (Prod.mk.inj (Option.some.inj hread)).1
    rw [← hb']
    exact ⟨hb, hlen⟩
  · rintro ⟨hfits, hlen⟩
    have hwrites : writeAll n ss w₁ = some { w₁ with iTxBuffer := ss.flatten } :=
      writeAll_fits (w := w₁) hs rfl (Nat.le_trans (Nat.le_of_eq (Nat.zero_add _)) hfits)
    exact ⟨_, _, Option.map_eq_some_iff.mpr ⟨_, hwrites, rfl⟩, hend ss.flatten,
      message_read aType maskKey hlen (by omega)⟩

/-- A text in two writes. -/
theorem message_read_back_iff_hi : ∃ w' sent,
    sendMessage 128 TYPE_TEXT WebSocket.zeroKey [text "h", text "i"]
      { iServerName := none, iServerPort := 80, iState := .eReadingBody } = some w' ∧
    w'.tx = sent ∧ WebSocket.frame? sent =
      some (⟨true, 1, some WebSocket.zeroKey, text "hi"⟩, []) :=
  (message_read_back_iff (n := 128) (by decide) rfl rfl TYPE_TEXT WebSocket.zeroKey
    [text "h", text "i"]).mpr ⟨by decide, by decide⟩

end WebSocketClient
end Http
end TimerCam

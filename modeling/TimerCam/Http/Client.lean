import TimerCam.Lib.UrlForm
import TimerCam.Lib.Wire

/-!
# Http.Client

`HttpClient` of the library `ArduinoHttpClient`: the request it writes and the response it reads. The
transport below takes everything that is written (`tx`); what comes in is a line of octets and pauses
(`rx`).

* `startRequest`, `sendHeader`, `write` : the request.
* `responseStatusCode`, `readHeader`    : the status line, and the header block.
* `available`, `read`, `responseBody`   : the body, by its length or in chunks.
-/

namespace TimerCam
namespace Http

open Octets Wire

/-- `tHttpState` -/
inductive HttpState where
  | eIdle
  | eRequestStarted
  | eRequestSent
  | eReadingStatusCode
  | eStatusCodeRead
  | eReadingContentLength
  | eSkipToEndOfHeader
  | eLineStartingCRFound
  | eReadingBody
  | eReadingChunkLength
  | eReadingBodyChunk
deriving DecidableEq

/-- `iState < eRequestSent` -/
def HttpState.beforeSent : HttpState → Bool
  | .eIdle | .eRequestStarted => true
  | _ => false

/-- An `int` or a `long` of 32 bits. -/
def int32 (x : Int) : Int := x.bmod (2 ^ 32)

def HTTP_SUCCESS : Int := 0
def HTTP_ERROR_CONNECTION_FAILED : Int := -1
def HTTP_ERROR_API : Int := -2
def HTTP_ERROR_TIMED_OUT : Int := -3
def HTTP_ERROR_INVALID_RESPONSE : Int := -4

def kUserAgent : Bytes := text "Arduino/2.2.0"
def kContentLengthPrefix : Bytes := text "Content-Length: "
def kTransferEncodingChunked : Bytes := text "Transfer-Encoding: chunked"
def kNoContentLengthHeader : Int := -1
def kHttpPort : Nat := 80
def kHttpsPort : Nat := 443
def kHttpResponseTimeout : Nat := 30 * 1000

/-- The two pointers into header names are the texts they point to. `asked` counts the answers of the
transport that were used up. -/
structure HttpClient where
  iServerName : Option Bytes
  iServerPort : Nat
  iState : HttpState := .eIdle
  iStatusCode : Int := 0
  iContentLength : Int := kNoContentLengthHeader
  iBodyLengthConsumed : Int := 0
  iContentLengthPtr : Bytes := kContentLengthPrefix
  iTransferEncodingChunkedPtr : Bytes := kTransferEncodingChunked
  iIsChunked : Bool := false
  iChunkLength : Int := 0
  iHttpResponseTimeout : Nat := kHttpResponseTimeout
  iConnectionClose : Bool := true
  iSendDefaultRequestHeaders : Bool := true
  rx : List Item := []
  tx : Bytes := []
  asked : Nat := 0

namespace HttpClient

def resetState (h : HttpClient) : HttpClient :=
  { h with
    iState := .eIdle, iStatusCode := 0, iContentLength := kNoContentLengthHeader
    iBodyLengthConsumed := 0, iContentLengthPtr := kContentLengthPrefix
    iTransferEncodingChunkedPtr := kTransferEncodingChunked, iIsChunked := false, iChunkLength := 0
    iHttpResponseTimeout := kHttpResponseTimeout }

/-- What has come in is lost with the connection. -/
def stop (h : HttpClient) : HttpClient := { h.resetState with rx := [] }

/-! ## The request -/

/-- Answer number `k` of `connect` and of `connected`. -/
structure Net where
  connect : Nat → Bool
  connected : Nat → Bool

def print (s : Bytes) (h : HttpClient) : HttpClient := { h with tx := h.tx ++ s }

def println (s : Bytes) (h : HttpClient) : HttpClient := h.print (s ++ crlf)

/-- `Print::print(int)` -/
def ofInt (n : Int) : Bytes :=
  if n < 0 then text "-" ++ decimal n.natAbs else decimal n.natAbs

def connectionKeepAlive (h : HttpClient) : HttpClient := { h with iConnectionClose := false }

def beginRequest (h : HttpClient) : HttpClient := { h with iState := .eRequestStarted }

/-- `sendHeader(aHeader)` -/
def sendHeaderLine (aHeader : Bytes) (h : HttpClient) : HttpClient := h.println aHeader

def sendHeader (aHeaderName aHeaderValue : Bytes) (h : HttpClient) : HttpClient :=
  ((h.print aHeaderName).print (text ": ")).println aHeaderValue

/-- `sendHeader` for an integer value. -/
def sendHeaderInt (aHeaderName : Bytes) (aHeaderValue : Int) (h : HttpClient) : HttpClient :=
  ((h.print aHeaderName).print (text ": ")).println (ofInt aHeaderValue)

def finishHeaders (h : HttpClient) : HttpClient := { h.println [] with iState := .eRequestSent }

def beginBody (h : HttpClient) : HttpClient :=
  if h.iState.beforeSent then h.finishHeaders else h

def endRequest (h : HttpClient) : HttpClient := h.beginBody

/-- `write(aBuffer, aSize)`, with as many octets as `aSize` says. -/
def write (aBuffer : Bytes) (h : HttpClient) : HttpClient := h.beginBody.print aBuffer

/-- `while (iClient->available()) iClient->read();` -/
def flushClientRx (h : HttpClient) : HttpClient :=
  { h with rx := h.rx.drop (Wire.available h.rx) }

def sendHost (h : HttpClient) : HttpClient :=
  match h.iServerName with
  | none => h
  | some name =>
    let h := (h.print (text "Host: ")).print name
    let h := if h.iServerPort ≠ kHttpPort ∧ h.iServerPort ≠ kHttpsPort then
      (h.print (text ":")).print (decimal h.iServerPort) else h
    h.println []

def sendInitialHeaders (aURLPath aHttpMethod : Bytes) (h : HttpClient) : HttpClient :=
  let h := ((h.print aHttpMethod).print (text " ")).print aURLPath
  let h := h.println (text " HTTP/1.1")
  let h := if h.iSendDefaultRequestHeaders then
    h.sendHost.sendHeader (text "User-Agent") kUserAgent else h
  let h := if h.iConnectionClose then h.sendHeader (text "Connection") (text "close") else h
  { h with iState := .eRequestStarted }

/-- Whether the connection stands: it is opened where it is not kept open. -/
def connects (N : Net) (h : HttpClient) : Bool × HttpClient :=
  if h.iConnectionClose then (N.connect h.asked, { h with asked := h.asked + 1 })
  else if N.connected h.asked then (true, { h with asked := h.asked + 1 })
  else (N.connect (h.asked + 1), { h with asked := h.asked + 2 })

/-- The headers that `startRequest` sends about the body. -/
def sendBodyHeaders (aContentType : Option Bytes) (aContentLength : Int) (h : HttpClient) :
    HttpClient :=
  let h := match aContentType with
    | some t => h.sendHeader (text "Content-Type") t
    | none => h
  if aContentLength > 0 then h.sendHeaderInt (text "Content-Length") aContentLength else h

/-- `aBody` is null or has `aContentLength` octets to read. -/
def startRequest (N : Net) (aURLPath aHttpMethod : Bytes) (aContentType : Option Bytes)
    (aContentLength : Int) (aBody : Option Bytes) (h : HttpClient) : Int × HttpClient :=
  let h := if h.iState = .eReadingBody ∨ h.iState = .eReadingChunkLength ∨
    h.iState = .eReadingBodyChunk then h.flushClientRx.resetState else h
  let initialState := h.iState
  if initialState ≠ .eIdle ∧ initialState ≠ .eRequestStarted then (HTTP_ERROR_API, h)
  else
    let c := h.connects N
    if c.1 then
      let h := c.2.sendInitialHeaders aURLPath aHttpMethod
      let h := h.sendBodyHeaders aContentType aContentLength
      let body := if aContentLength > 0 then aBody else none
      let h := if initialState = .eIdle ∨ body.isSome then h.finishHeaders else h
      let h := match body with
        | some b => h.write (b.take aContentLength.toNat)
        | none => h
      (HTTP_SUCCESS, h)
    else (HTTP_ERROR_CONNECTION_FAILED, c.2)

/-! ## The status line -/

/-- What the loop over one line of `responseStatusCode` keeps. -/
structure StatusLine where
  iState : HttpState := .eRequestSent
  statusPtr : Bytes := text "HTTP/*.* "
  iStatusCode : Int := 0
  c : UInt8 := 0
  /-- It has returned `HTTP_ERROR_INVALID_RESPONSE`. -/
  invalid : Bool := false
deriving DecidableEq

/-- An octet of a status line. -/
def statusStep (l : StatusLine) (c : UInt8) : StatusLine :=
  let l := { l with c := c }
  match l.iState with
  | .eRequestSent =>
    match l.statusPtr with
    | p :: ps =>
      if p = 42 ∨ p = c then
        { l with statusPtr := ps, iState := if ps = [] then .eReadingStatusCode else .eRequestSent }
      else { l with invalid := true }
    | [] => { l with invalid := true }
  | .eReadingStatusCode =>
    match digit? c with
    | some d => { l with iStatusCode := int32 (l.iStatusCode * 10 + d) }
    | none => { l with iState := .eStatusCodeRead }
  | _ => l

def statusOver (l : StatusLine) : Bool := l.c = 10 || l.invalid

/-- `iStatusCode < 200 && iStatusCode != 101` -/
def informational (iStatusCode : Int) : Bool := iStatusCode < 200 && iStatusCode ≠ 101

/-- One pass of the `do` loop of `responseStatusCode`. -/
def readStatusLine (timeout : Nat) (w : List Item) : StatusLine × List Item :=
  scan timeout statusStep statusOver 0 {} w

theorem readStatusLine_length {timeout : Nat} {w : List Item}
    (h : (readStatusLine timeout w).1.iState = .eStatusCodeRead) :
    (readStatusLine timeout w).2.length < w.length :=
  scan_length_lt _ _ _ _ _ _ fun he => by
    rw [readStatusLine, he] at h
    cases h

/-- The `do` loop of `responseStatusCode`, and what follows it. -/
def statusLines (timeout : Nat) (w : List Item) : (Int × StatusLine) × List Item :=
  let r := readStatusLine timeout w
  if r.1.invalid then ((HTTP_ERROR_INVALID_RESPONSE, r.1), r.2)
  else if r.1.c = 10 then
    if informational r.1.iStatusCode then
      if r.1.iState = .eStatusCodeRead then statusLines timeout r.2
      else ((HTTP_ERROR_TIMED_OUT, r.1), r.2)
    else if r.1.iState = .eStatusCodeRead then ((r.1.iStatusCode, r.1), r.2)
    else ((HTTP_ERROR_INVALID_RESPONSE, r.1), r.2)
  else if r.1.iState = .eStatusCodeRead ∧ informational r.1.iStatusCode then
    statusLines timeout r.2
  else ((HTTP_ERROR_TIMED_OUT, r.1), r.2)
termination_by w.length
decreasing_by
  · exact readStatusLine_length ‹_›
  · exact readStatusLine_length (And.left ‹_›)

def responseStatusCode (h : HttpClient) : Int × HttpClient :=
  if h.iState.beforeSent then (HTTP_ERROR_API, h)
  else
    let r := statusLines h.iHttpResponseTimeout h.rx
    (r.1.1, { h with iState := r.1.2.iState, iStatusCode := r.1.2.iStatusCode, rx := r.2 })

/-! ## The header block -/

def endOfHeadersReached (h : HttpClient) : Bool :=
  h.iState = .eReadingBody || h.iState = .eReadingChunkLength || h.iState = .eReadingBodyChunk

/-- The `switch` of `readHeader`. -/
def headerSwitch (h : HttpClient) (c : UInt8) : HttpClient :=
  match h.iState with
  | .eStatusCodeRead =>
    if h.iContentLengthPtr.head? = some c then
      let h := { h with iContentLengthPtr := h.iContentLengthPtr.tail }
      if h.iContentLengthPtr = [] then
        { h with iState := .eReadingContentLength, iContentLength := 0, iBodyLengthConsumed := 0 }
      else h
    else if h.iTransferEncodingChunkedPtr.head? = some c then
      let h := { h with iTransferEncodingChunkedPtr := h.iTransferEncodingChunkedPtr.tail }
      if h.iTransferEncodingChunkedPtr = [] then
        { h with iIsChunked := true, iState := .eSkipToEndOfHeader }
      else h
    else if h.iContentLengthPtr = kContentLengthPrefix ∧
        h.iTransferEncodingChunkedPtr = kTransferEncodingChunked ∧ c = 13 then
      { h with iState := .eLineStartingCRFound }
    else { h with iState := .eSkipToEndOfHeader }
  | .eReadingContentLength =>
    match digit? c with
    | some d =>
      let n := int32 (h.iContentLength * 10 + d)
      if n > h.iContentLength then { h with iContentLength := n } else h
    | none => { h with iState := .eSkipToEndOfHeader }
  | .eLineStartingCRFound =>
    if c = 10 then
      if h.iIsChunked then { h with iState := .eReadingChunkLength, iChunkLength := 0 }
      else { h with iState := .eReadingBody }
    else h
  | _ => h

/-- What `readHeader` does with an octet of the header block. -/
def headerStep (h : HttpClient) (c : UInt8) : HttpClient :=
  let h := h.headerSwitch c
  if c = 10 ∧ h.endOfHeadersReached = false then
    { h with
      iState := .eStatusCodeRead, iContentLengthPtr := kContentLengthPrefix
      iTransferEncodingChunkedPtr := kTransferEncodingChunked }
  else h

def skipResponseHeaders (h : HttpClient) : Int × HttpClient :=
  let r := scan h.iHttpResponseTimeout headerStep endOfHeadersReached 0 h h.rx
  let h := { r.1 with rx := r.2 }
  (if h.endOfHeadersReached then HTTP_SUCCESS else HTTP_ERROR_TIMED_OUT, h)

def contentLength (h : HttpClient) : Int × HttpClient :=
  let h := if h.endOfHeadersReached then h else h.skipResponseHeaders.2
  (h.iContentLength, h)

/-! ## The body -/

/-- The loop of `available` over a line with a chunk size: the number so far, and whether the line has
ended. -/
def chunkLengthLoop (iChunkLength : Int) : List Item → (Int × Bool) × List Item
  | .octet c :: w =>
    if c = 10 then ((iChunkLength, true), w)
    else if c = 13 then chunkLengthLoop iChunkLength w
    else
      match UrlForm.hex? c with
      | some d => chunkLengthLoop (int32 (iChunkLength * 16 + d)) w
      | none => chunkLengthLoop iChunkLength w
  | w => ((iChunkLength, false), w)

/-- The first part of `available`: where a chunk size is due, what there is of it is read. -/
def readChunkLength (h : HttpClient) : HttpClient :=
  if h.iState = .eReadingChunkLength then
    let r := chunkLengthLoop h.iChunkLength h.rx
    { h with
      iChunkLength := r.1.1, rx := r.2
      iState := if r.1.2 then .eReadingBodyChunk else .eReadingChunkLength }
  else h

/-- The rest of `available`. -/
def availableHere (h : HttpClient) : Int × HttpClient :=
  let h := if h.iState = .eReadingBodyChunk ∧ h.iChunkLength = 0 then
    { h with iState := .eReadingChunkLength } else h
  if h.iState = .eReadingChunkLength then (0, h)
  else if h.iState = .eReadingBodyChunk then (min (Wire.available h.rx : Int) h.iChunkLength, h)
  else (Wire.available h.rx, h)

def available (h : HttpClient) : Int × HttpClient := h.readChunkLength.availableHere

/-- With a `Content-Length` `read` counts the octets of the body. -/
def countBody (h : HttpClient) : HttpClient :=
  if h.endOfHeadersReached ∧ h.iContentLength > 0 then
    { h with iBodyLengthConsumed := int32 (h.iBodyLengthConsumed + 1) }
  else h

/-- It counts down those of a chunk. -/
def countChunk (h : HttpClient) : HttpClient :=
  if h.iState = .eReadingBodyChunk then
    let n := int32 (h.iChunkLength - 1)
    { h with
      iChunkLength := n
      iState := if n = 0 then .eReadingChunkLength else .eReadingBodyChunk }
  else h

/-- The call of `iClient->read()` in `read`; `none` is -1. -/
def takeOctet (h : HttpClient) : Option UInt8 × HttpClient :=
  match h.rx with
  | .octet c :: w => (some c, (countBody { h with rx := w }).countChunk)
  | _ => (none, h)

def read (h : HttpClient) : Option UInt8 × HttpClient :=
  let a := if h.iIsChunked then h.available else (1, h)
  if a.1 = 0 then (none, a.2) else a.2.takeOctet

/-- `read(buf, size)`: what there is of the octets that are asked for. -/
def readBuf (size : Nat) (h : HttpClient) : Bytes × HttpClient :=
  let ret := min size (Wire.available h.rx)
  let h' := { h with rx := h.rx.drop ret }
  (octets (h.rx.take ret),
    if h.endOfHeadersReached ∧ h.iContentLength > 0 then
      { h' with iBodyLengthConsumed := int32 (h.iBodyLengthConsumed + ret) }
    else h')

/-- How far the client is from reading an octet: those in `rx`, and the end of an empty chunk. -/
def ahead (h : HttpClient) : Nat :=
  2 * h.rx.length + if h.iState = .eReadingBodyChunk then 1 else 0

theorem chunkLengthLoop_length (n : Int) (w : List Item) :
    (chunkLengthLoop n w).2.length ≤ w.length := by
  induction w generalizing n with
  | nil => exact Nat.le_refl _
  | cons i w ih =>
    cases i with
    | pause ms => exact Nat.le_refl _
    | octet c =>
      rw [chunkLengthLoop]
      split
      · exact Nat.le_succ _
      · split
        · exact Nat.le_succ_of_le (ih n)
        · split
          · exact Nat.le_succ_of_le (ih _)
          · exact Nat.le_succ_of_le (ih n)

/-- Where the loop stops before the end of its line, nothing is there. -/
theorem chunkLengthLoop_end (n : Int) (w : List Item) :
    ((chunkLengthLoop n w).1.2 = true → (chunkLengthLoop n w).2.length < w.length) ∧
      ((chunkLengthLoop n w).1.2 = false → Wire.available (chunkLengthLoop n w).2 = 0) := by
  induction w generalizing n with
  | nil => exact ⟨nofun, fun _ => rfl⟩
  | cons i w ih =>
    cases i with
    | pause ms => exact ⟨nofun, fun _ => rfl⟩
    | octet c =>
      rw [chunkLengthLoop]
      split
      · exact ⟨fun _ => Nat.lt_succ_self _, nofun⟩
      · split
        · exact ⟨fun h => Nat.lt_succ_of_lt ((ih n).1 h), (ih n).2⟩
        · split
          · exact ⟨fun h => Nat.lt_succ_of_lt ((ih _).1 h), (ih _).2⟩
          · exact ⟨fun h => Nat.lt_succ_of_lt ((ih n).1 h), (ih n).2⟩

theorem readChunkLength_ahead (h : HttpClient) :
    h.readChunkLength.ahead ≤ h.ahead ∧ (h.iState = .eReadingChunkLength →
      (h.readChunkLength.iState = .eReadingBodyChunk → h.readChunkLength.ahead < h.ahead) ∧
      (h.readChunkLength.iState = .eReadingChunkLength →
        Wire.available h.readChunkLength.rx = 0)) := by
  unfold readChunkLength ahead
  by_cases hs : h.iState = .eReadingChunkLength
  · obtain ⟨hend, hnone⟩ := chunkLengthLoop_end h.iChunkLength h.rx
    have hle := chunkLengthLoop_length h.iChunkLength h.rx
    rw [if_pos hs, hs]
    cases hb : (chunkLengthLoop h.iChunkLength h.rx).1.2 with
    | true =>
      have := hend hb
      simp only [hb, if_true, reduceCtorEq, if_false]
      exact ⟨by omega, fun _ => ⟨fun _ => by omega, fun he => (by cases he)⟩⟩
    | false =>
      simp only [hb, Bool.false_eq_true, if_false, reduceCtorEq]
      exact ⟨by omega, fun _ => ⟨fun he => (by cases he), fun _ => hnone hb⟩⟩
  · rw [if_neg hs]
    exact ⟨Nat.le_refl _, fun he => absurd he hs⟩

/-- `available` takes the client no further away from an octet, and nearer to one if it answers 0
although octets are left. -/
theorem available_ahead (h : HttpClient) : h.available.2.ahead ≤ h.ahead ∧
    (h.available.1 = 0 → Wire.available h.available.2.rx ≠ 0 → h.available.2.ahead < h.ahead) := by
  obtain ⟨hle, hstate⟩ := readChunkLength_ahead h
  have hkeep : h.iState ≠ .eReadingChunkLength → h.readChunkLength.iState = h.iState := by
    intro hs
    rw [readChunkLength, if_neg hs]
  unfold available availableHere
  generalize h.readChunkLength = h₁ at *
  by_cases hz : h₁.iState = .eReadingBodyChunk ∧ h₁.iChunkLength = 0
  · have hlt : ({ h₁ with iState := .eReadingChunkLength } : HttpClient).ahead < h₁.ahead := by
      simp [ahead, hz.1]
    simp only [if_pos hz, if_true]
    exact ⟨by omega, fun _ _ => by omega⟩
  · simp only [if_neg hz]
    by_cases hc : h₁.iState = .eReadingChunkLength
    · rw [if_pos hc]
      refine ⟨hle, fun _ hrest => ?_⟩
      by_cases hs : h.iState = .eReadingChunkLength
      · exact absurd ((hstate hs).2 hc) hrest
      · exact absurd ((hkeep hs) ▸ hc) hs
    · rw [if_neg hc]
      by_cases hb : h₁.iState = .eReadingBodyChunk
      · rw [if_pos hb]
        refine ⟨hle, fun h0 hrest => ?_⟩
        have : h₁.iChunkLength ≠ 0 := fun he => hz ⟨hb, he⟩
        simp only at h0 hrest
        omega
      · rw [if_neg hb]
        refine ⟨hle, fun h0 hrest => ?_⟩
        simp only at h0 hrest
        omega

theorem countBody_ahead (h : HttpClient) : h.countBody.ahead = h.ahead := by
  unfold countBody
  split
  · rfl
  · rfl

theorem countChunk_ahead (h : HttpClient) : h.countChunk.ahead ≤ h.ahead := by
  unfold countChunk
  split
  · rename_i hs
    have hle : ∀ s : HttpState, (if s = .eReadingBodyChunk then 1 else 0) ≤ 1 := by
      intro s
      split <;> omega
    simp only [ahead, hs, if_true]
    exact Nat.add_le_add_left (hle _) _
  · exact Nat.le_refl _

theorem takeOctet_ahead (h : HttpClient) : h.takeOctet.2.ahead ≤ h.ahead ∧
    (h.takeOctet.1 ≠ none → h.takeOctet.2.ahead < h.ahead) ∧
    (h.takeOctet.1 = none → Wire.available h.takeOctet.2.rx = 0) := by
  unfold takeOctet
  cases hrx : h.rx with
  | nil => exact ⟨Nat.le_refl _, fun he => absurd rfl he, fun _ => by rw [hrx]; rfl⟩
  | cons i w =>
    cases i with
    | pause ms => exact ⟨Nat.le_refl _, fun he => absurd rfl he, fun _ => by rw [hrx]; rfl⟩
    | octet c =>
      have hlt : ({ h with rx := w } : HttpClient).ahead < h.ahead := by
        simp only [ahead, hrx, List.length_cons]
        omega
      have hle := countChunk_ahead (countBody { h with rx := w })
      rw [countBody_ahead] at hle
      exact ⟨Nat.le_of_lt (Nat.lt_of_le_of_lt hle hlt), fun _ => Nat.lt_of_le_of_lt hle hlt, nofun⟩

/-- `read` gets nearer to an octet, unless nothing is there. -/
theorem read_ahead (h : HttpClient) : h.read.2.ahead ≤ h.ahead ∧
    (h.read.1 ≠ none → h.read.2.ahead < h.ahead) ∧
    (h.read.1 = none → Wire.available h.read.2.rx ≠ 0 → h.read.2.ahead < h.ahead) := by
  unfold read
  cases hc : h.iIsChunked with
  | false =>
    obtain ⟨h₁, h₂, h₃⟩ := takeOctet_ahead h
    simp only [Bool.false_eq_true, if_false, one_ne_zero]
    exact ⟨h₁, h₂, fun hn hrest => absurd (h₃ hn) hrest⟩
  | true =>
    obtain ⟨ha, hz⟩ := available_ahead h
    simp only [if_true]
    by_cases h0 : h.available.1 = 0
    · rw [if_pos h0]
      exact ⟨ha, fun hn => absurd rfl hn, fun _ hrest => hz h0 hrest⟩
    · rw [if_neg h0]
      obtain ⟨h₁, h₂, h₃⟩ := takeOctet_ahead h.available.2
      exact ⟨by omega, fun hn => by have := h₂ hn; omega, fun hn hrest => absurd (h₃ hn) hrest⟩

/-- `Stream::_timeout` -/
def timeout : Nat := 1000

/-- `Stream::timedRead`: `do { c = read(); if (c >= 0) return c; } while (millis() - start < _timeout);`
`t` is the time since `start`. -/
def timedRead (t : Nat) (h : HttpClient) : Option UInt8 × HttpClient :=
  match _hr : h.read with
  | (some c, h') => (some c, h')
  | (none, h') =>
    match _hw : h'.rx with
    | .octet _ :: _ => timedRead t h'
    | .pause ms :: w =>
      if (t + ms) % Uptime.period < timeout then timedRead (t + ms) { h' with rx := w }
      else (none, { h' with rx := w })
    | [] => (none, h')
termination_by h.ahead
decreasing_by
  · have := (read_ahead h).2.2
    rw [_hr, _hw] at this
    exact this rfl (by simp [Wire.available])
  · have hle := (read_ahead h).1
    rw [_hr] at hle
    refine Nat.lt_of_lt_of_le ?_ hle
    simp only [ahead, _hw, List.length_cons]
    omega

theorem timedRead_ahead (t : Nat) (h : HttpClient) (hsome : (h.timedRead t).1 ≠ none) :
    (h.timedRead t).2.ahead < h.ahead := by
  fun_induction timedRead t h with
  | case1 t h c h' hr =>
    have := (read_ahead h).2.1
    rw [hr] at this
    exact this (by simp)
  | case2 t h h' hr c w hw ih =>
    have hle := (read_ahead h).1
    rw [hr] at hle
    exact Nat.lt_of_lt_of_le (ih hsome) hle
  | case3 t h h' hr ms w hw hlt ih =>
    have hle := (read_ahead h).1
    have hdrop : ({ h' with rx := w } : HttpClient).ahead ≤ h'.ahead := by
      simp only [ahead, hw, List.length_cons]
      omega
    rw [hr] at hle
    exact Nat.lt_of_lt_of_le (ih hsome) (Nat.le_trans hdrop hle)
  | case4 => exact absurd rfl hsome
  | case5 => exact absurd rfl hsome

/-- `response` has `response.length` octets so far; `heap 0` is the answer to `reserve`, and `heap k`
that to the `concat` of octet number `k`. `none` is `String((const char*)NULL)`. -/
def bodyLoop (heap : Nat → Bool) (bodyLength : Int) (response : Bytes) (h : HttpClient) :
    Option Bytes × HttpClient :=
  if h.iBodyLengthConsumed = bodyLength then (some response, h)
  else
    match _hr : h.timedRead 0 with
    | (none, h') => (some response, h')
    | (some c, h') =>
      if heap (response.length + 1) then bodyLoop heap bodyLength (response ++ [c]) h'
      else (none, h')
termination_by h.ahead
decreasing_by
  have := timedRead_ahead 0 h
  rw [_hr] at this
  exact this (by simp)

def responseBody (heap : Nat → Bool) (h : HttpClient) : Option Bytes × HttpClient :=
  let r := h.contentLength
  let bodyLength := r.1
  if bodyLength > 0 ∧ heap 0 = false then (none, r.2)
  else
    let b := bodyLoop heap bodyLength [] r.2
    (b.1.bind fun response =>
      if bodyLength > 0 ∧ bodyLength ≠ response.length then none else some response, b.2)

end HttpClient
end Http
end TimerCam

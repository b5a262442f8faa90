import TimerCam.Http.Exchanges
import TimerCam.Http.Listening

/-!
# Http.Upgrade

`WebSocketClient::begin`: the request for the upgrade, and the response to it.

* `begin_listens` : a strict server reads the request with the key that was drawn, and behind its
  response the client waits for frames.
-/

namespace TimerCam
namespace Http
namespace WebSocketClient

open Octets Wire HttpClient

/-- `base64RandomKey`: the stores of `b64_encode` into an array of 25 zeros. -/
def base64RandomKey (randomKey : Vector UInt8 16) : Bytes :=
  cString ((b64_encode randomKey.toList 0 25).2.foldl (fun b s => b.set s.2 s.1)
    (List.replicate 25 0))

/-- What `begin` sends behind the request line. -/
def sendUpgrade (key : Bytes) (h : HttpClient) : HttpClient :=
  let h := h.sendHeader (text "Upgrade") (text "websocket")
  let h := h.sendHeader (text "Connection") (text "Upgrade")
  let h := h.sendHeader (text "Sec-WebSocket-Key") key
  let h := h.sendHeader (text "Sec-WebSocket-Version") (text "13")
  h.endRequest

/-- What `begin` reads, where `reply` comes in. -/
def readUpgrade (reply : List Item) (h : HttpClient) : Int × HttpClient :=
  let s := responseStatusCode { h with rx := h.rx ++ reply }
  (s.1, if 0 < s.1 then s.2.skipResponseHeaders.2 else s.2)

/-- `randomKey` is what `random` gives, and `reply` what comes in for the request. -/
def begin (N : Net) (randomKey : Vector UInt8 16) (reply : List Item) (aPath : Bytes)
    (w : WebSocketClient) : Int × WebSocketClient :=
  let h := w.toHttpClient.beginRequest.connectionKeepAlive
  let r := h.startRequest N aPath (text "GET") none (-1) none
  let s :=
    if r.1 = 0 then readUpgrade reply (sendUpgrade (base64RandomKey randomKey) r.2)
    else r
  (if s.1 = 101 then 0 else s.1, { w with toHttpClient := s.2, iRxSize := 0 })

/-! ## The key -/

theorem stores_eq (s before after : Bytes) (h : s.length ≤ after.length) :
    (s.zipIdx before.length).foldl (fun b s => b.set s.2 s.1) (before ++ after) =
      before ++ s ++ after.drop s.length := by
  induction s generalizing before after with
  | nil => simp
  | cons c s ih =>
    cases after with
    | nil => cases h
    | cons d after =>
      have hset : (before ++ d :: after).set before.length c = before ++ [c] ++ after := by
        simp
      have := ih (before ++ [c]) after (Nat.le_of_succ_le_succ h)
      rw [List.length_append, List.length_singleton] at this
      rw [List.zipIdx_cons, List.foldl_cons, hset, this]
      simp

theorem base64RandomKey_eq (randomKey : Vector UInt8 16) :
    base64RandomKey randomKey = Base64.encode randomKey.toList := by
  have hlen : (Base64.encode randomKey.toList).length = 24 := by
    rw [Base64.encode_length, Vector.length_toList]
  have hroom : (randomKey.toList.length * 8 / 6 : Nat) ≤ (25 : Int) := by
    rw [Vector.length_toList]
    decide
  have hzero : ∀ c ∈ Base64.encode randomKey.toList, decide (c ≠ 0) = true := by
    intro c hc
    refine decide_eq_true ?_
    rintro rfl
    rcases Base64.mem_encode hc with h | h
    · exact absurd h (by decide)
    · exact absurd h (by decide)
  have hstores := stores_eq (Base64.encode randomKey.toList) [] (List.replicate 25 0)
    (by rw [hlen, List.length_replicate]; decide)
  rw [List.nil_append, List.nil_append, hlen] at hstores
  rw [base64RandomKey, b64_encode_eq randomKey.toList 0 hroom]
  refine (congrArg cString hstores).trans ?_
  rw [cString, List.takeWhile_append_of_pos hzero]
  exact List.append_nil _

/-! ## The upgrade -/

def getRequest (aPath : Bytes) : Request := { aURLPath := aPath, aHttpMethod := text "GET" }

/-- The headers of the request for the upgrade. -/
def upgradeCalls (key : Bytes) : List Call :=
  [.sendHeader (text "Upgrade") (text "websocket"), .sendHeader (text "Connection") (text "Upgrade"),
    .sendHeader (text "Sec-WebSocket-Key") key, .sendHeader (text "Sec-WebSocket-Version") (text "13")]

def upgradeLines (key : Bytes) : List Bytes :=
  [text "Upgrade: websocket", text "Connection: Upgrade", text "Sec-WebSocket-Key: " ++ key,
    text "Sec-WebSocket-Version: 13"]

theorem headerLines_upgrade (key : Bytes) :
    headerLines (upgradeCalls key ++ [.endRequest]) = upgradeLines key := rfl

theorem upgradeLines_ok (randomKey : Vector UInt8 16) :
    ∀ l ∈ upgradeLines (Base64.encode randomKey.toList), l ≠ [] ∧ 13 ∉ l := by
  have hkey : 13 ∉ text "Sec-WebSocket-Key: " ++ Base64.encode randomKey.toList := by
    intro h
    rcases List.mem_append.mp h with h | h
    · exact absurd h (by decide)
    · rcases Base64.mem_encode h with h | h
      · exact absurd h (by decide)
      · exact absurd h (by decide)
  exact List.forall_mem_cons.mpr ⟨by decide, List.forall_mem_cons.mpr ⟨by decide,
    List.forall_mem_cons.mpr ⟨⟨List.cons_ne_nil _ _, hkey⟩, List.forall_mem_singleton.mpr (by decide)⟩⟩⟩

/-- The client that `begin` asks with. -/
def begun (h : HttpClient) : HttpClient := h.beginRequest.connectionKeepAlive

theorem clean_begun {h : HttpClient} (hc : Clean h) : Clean (begun h) := by
  obtain ⟨h₁, h₂, h₃, h₄, h₅, h₆⟩ := hc.start
  exact ⟨rfl, ⟨h₁, h₂, h₃, h₄, h₅, h₆⟩, hc.limit, hc.rx⟩

theorem startBody_frame (h : HttpClient) : h.startBody.tx = h.tx ∧ h.startBody.rx = h.rx := by
  unfold startBody
  split
  · exact ⟨rfl, rfl⟩
  · exact ⟨rfl, rfl⟩

/-- The response is read to the end of its header block. -/
theorem readUpgrade_read {h : HttpClient} (hf : Fresh h)
    (hlimit : h.iHttpResponseTimeout = kHttpResponseTimeout) (hempty : h.rx = [])
    {infos : List StatusText} (hinfos : ∀ l ∈ infos, l.Ok ∧ informational l.code = true)
    {final : StatusText} (hok : final.Ok) (hfinal : informational final.code = false)
    {hs : List Header} (hhs : ∀ x ∈ hs, x.Ok) {reply rest : List Item}
    (hw : Carries kHttpResponseTimeout 0 reply
      (marked true (infos.flatMap StatusText.line ++ final.line) ++ marked true (block hs)) rest) :
    ∃ h₂, readUpgrade reply h = ((final.code : Int), h₂) ∧ h₂.tx = h.tx ∧ h₂.rx = rest ∧
      (.chunked ∉ hs → lastLength hs = none → Open h₂) := by
  generalize hh₁ : ({ h with rx := h.rx ++ reply } : HttpClient) = h₁
  have hf₁ : Fresh h₁ := by
    rw [← hh₁]
    exact ⟨hf.sent, hf.length, hf.consumed, hf.lengthPtr, hf.chunkedPtr, hf.chunked, hf.limit⟩
  have hlimit₁ : h₁.iHttpResponseTimeout = kHttpResponseTimeout := by
    rw [← hh₁]
    exact hlimit
  have hrx₁ : h₁.rx = reply := by
    rw [← hh₁]
    simp only [hempty, List.nil_append]
  have htx₁ : h₁.tx = h.tx := by rw [← hh₁]
  rw [← hlimit₁, ← hrx₁] at hw
  obtain ⟨hcode, hhead⟩ := head_read hf₁ hinfos hok hfinal hhs hw
  obtain ⟨w, -, hread⟩ := responseStatusCode_read hf₁ hinfos hok hfinal hw
  have hnot : h₁.responseStatusCode.2.endOfHeadersReached = false := by
    rw [hread]
    rfl
  have hpos : (0 : Int) < final.code := by
    rcases Nat.eq_zero_or_pos final.code with h0 | h0
    · rw [h0] at hfinal
      exact absurd hfinal (by decide)
    · omega
  have hskip := congrArg Prod.snd hhead
  rw [contentLength, hnot, if_neg Bool.false_ne_true] at hskip
  let h₂ : HttpClient := { h₁ with
    iState := .eStatusCodeRead, iStatusCode := final.code, rx := rest
    iContentLength := lengthNoted kNoContentLengthHeader hs
    iIsChunked := hs.contains .chunked }
  obtain ⟨htx₂, hrx₂⟩ := startBody_frame h₂
  refine ⟨h₂.startBody, ?_, htx₂.trans htx₁, hrx₂, ?_⟩
  · rw [readUpgrade, hh₁]
    simp only [hcode, if_pos hpos]
    exact Prod.ext rfl hskip
  · intro hplain hnone
    have hcontains : hs.contains .chunked = false := by simpa using hplain
    have hchunked : h₂.iIsChunked = false := hcontains
    have hlength : h₂.iContentLength ≤ 0 := by
      have hnoted : h₂.iContentLength = -1 := by
        show lengthNoted kNoContentLengthHeader hs = -1
        rw [lengthNoted, hnone]
        rfl
      rw [hnoted]
      decide
    have hstart : h₂.startBody = { h₂ with iState := .eReadingBody } :=
      if_neg (by rw [hchunked]; exact Bool.false_ne_true)
    rw [hstart]
    exact ⟨rfl, hchunked, hlength⟩

section Upgrade

variable {N : Net} (hnet : ∀ k, N.connect k = true) {w : WebSocketClient}
  (hc : Clean w.toHttpClient) (randomKey : Vector UInt8 16) (aPath : Bytes)
include hnet hc

/-- The client when `begin` has sent its request. -/
def requested (N : Net) (randomKey : Vector UInt8 16) (aPath : Bytes) (h : HttpClient) : HttpClient :=
  perform N (getRequest aPath) (upgradeCalls (Base64.encode randomKey.toList)) (begun h)

theorem begin_eq (reply : List Item) : w.begin N randomKey reply aPath =
    let s := readUpgrade reply (requested N randomKey aPath w.toHttpClient)
    (if s.1 = 101 then 0 else s.1, { w with toHttpClient := s.2, iRxSize := 0 }) := by
  have hstart : ((begun w.toHttpClient).startRequest N aPath (text "GET") none (-1) none).1 = 0 :=
    congrArg Prod.fst
      (start_eq (N := N) (clean_begun hc).state (connects_all hnet _) (getRequest aPath))
  have hsent : readUpgrade reply (requested N randomKey aPath w.toHttpClient) =
      if ((begun w.toHttpClient).startRequest N aPath (text "GET") none (-1) none).1 = 0 then
        readUpgrade reply (sendUpgrade (Base64.encode randomKey.toList)
          ((begun w.toHttpClient).startRequest N aPath (text "GET") none (-1) none).2)
      else (begun w.toHttpClient).startRequest N aPath (text "GET") none (-1) none :=
    (if_pos hstart).symm
  rw [begin, base64RandomKey_eq, hsent]
  rfl

theorem request_sent (hlines : ∀ l ∈ (getRequest aPath).lines (begun w.toHttpClient), l ≠ [] ∧ 13 ∉ l) :
    ∃ sent, (requested N randomKey aPath w.toHttpClient).tx = w.tx ++ sent ∧
      Multipart.headerBlock? sent = some ((getRequest aPath).lines (begun w.toHttpClient) ++
        upgradeLines (Base64.encode randomKey.toList), []) := by
  have hall : ∀ l ∈ (getRequest aPath).lines (begun w.toHttpClient) ++
      headerLines (upgradeCalls (Base64.encode randomKey.toList) ++ [.endRequest]),
      l ≠ [] ∧ 13 ∉ l := by
    rw [headerLines_upgrade]
    intro l hl
    rcases List.mem_append.mp hl with hl | hl
    · exact hlines l hl
    · exact upgradeLines_ok randomKey l hl
  obtain ⟨-, sent, hsent, hread⟩ := request_read_back (clean_begun hc).state
    (connects_all hnet (begun w.toHttpClient)) (getRequest aPath)
    (upgradeCalls (Base64.encode randomKey.toList) ++ [.endRequest]) hall
  refine ⟨sent, ?_, ?_⟩
  · rw [runCalls, List.foldl_append] at hsent
    exact hsent
  · rw [headerLines_upgrade] at hread
    exact hread

/-- A server that reads strictly reads the request for the upgrade as it is meant, with the 16 octets
that were drawn in its key. Whatever the response is, its code is returned, with 0 for the 101 of the
upgrade. Where it has neither a length nor chunks, the client then waits for frames, and what
follows the response is the first of them. -/
theorem begin_listens (hidle : w.iTxStarted = false)
    (hlines : ∀ l ∈ (getRequest aPath).lines (begun w.toHttpClient), l ≠ [] ∧ 13 ∉ l)
    {infos : List StatusText} (hinfos : ∀ l ∈ infos, l.Ok ∧ informational l.code = true)
    {final : StatusText} (hok : final.Ok) (hfinal : informational final.code = false)
    {hs : List Header} (hhs : ∀ x ∈ hs, x.Ok) {reply rest : List Item}
    (hw : Carries kHttpResponseTimeout 0 reply
      (marked true (infos.flatMap StatusText.line ++ final.line) ++ marked true (block hs)) rest) :
    (w.begin N randomKey reply aPath).1 = (if final.code = 101 then 0 else (final.code : Int)) ∧
      ∃ sent key, (w.begin N randomKey reply aPath).2.tx = w.tx ++ sent ∧
        Multipart.headerBlock? sent =
          some ((getRequest aPath).lines (begun w.toHttpClient) ++ upgradeLines key, []) ∧
        Base64.decode key = some randomKey.toList ∧
        (.chunked ∉ hs → lastLength hs = none →
          Waiting w.iRxOpCode rest (w.tx ++ sent) (w.begin N randomKey reply aPath).2) := by
  obtain ⟨hf, hlimit, hempty⟩ := perform_clean hnet (clean_begun hc) (getRequest aPath)
    (upgradeCalls (Base64.encode randomKey.toList))
  obtain ⟨sent, htx, hread⟩ := request_sent hnet hc randomKey aPath hlines
  have hbegin := begin_eq hnet hc randomKey aPath reply
  have hrequested : perform N (getRequest aPath) (upgradeCalls (Base64.encode randomKey.toList))
      (begun w.toHttpClient) = requested N randomKey aPath w.toHttpClient := rfl
  rw [hrequested] at hf hlimit hempty
  generalize requested N randomKey aPath w.toHttpClient = h at *
  obtain ⟨h₂, hup, htx₂, hrx₂, hopen⟩ :=
    readUpgrade_read hf hlimit hempty hinfos hok hfinal hhs hw
  simp only [hup] at hbegin
  rw [hbegin]
  have hsent : h₂.tx = w.tx ++ sent := htx₂.trans htx
  refine ⟨?_, sent, _, hsent, hread, Base64.decode_encode _, ?_⟩
  · by_cases h101 : final.code = 101
    · simp [h101]
    · rw [if_neg h101]
      exact if_neg (by omega)
  · intro hplain hnone
    exact ⟨hopen hplain hnone, hidle, rfl, rfl, hrx₂, hsent⟩

end Upgrade

def switchingLine : StatusText := ⟨49, 49, 101, text " Switching\x0d"⟩

theorem switchingLine_ok : switchingLine.Ok :=
  ⟨by decide, by decide, by decide, by decide, after_space, by decide⟩

def upgradeHeader : Header := .other (text "Upgrade: websocket")

theorem upgradeHeader_ok : ∀ x ∈ [upgradeHeader], x.Ok :=
  List.forall_mem_singleton.mpr
    ⟨by decide, by decide, by decide, by decide +kernel, by decide +kernel⟩

def switchingHead : List (UInt8 × Bool) :=
  marked true (([] : List StatusText).flatMap StatusText.line ++ switchingLine.line) ++
    marked true (block [upgradeHeader])

def newClient : WebSocketClient := { iServerName := none, iServerPort := 80 }

/-- The response and a ping behind it. -/
def switchingReply : List Item :=
  ready (switchingHead.map (·.1)) ++ ready pingFrame.bytes

theorem begin_listens_new :
    (newClient.begin alwaysNet (Vector.replicate 16 7) switchingReply (text "/")).1 = 0 ∧
      ∃ tx, Waiting 0 (ready pingFrame.bytes) tx
        (newClient.begin alwaysNet (Vector.replicate 16 7) switchingReply (text "/")).2 := by
  have hlimit : kHttpResponseTimeout ≤ Uptime.period ∧ 0 < kHttpResponseTimeout := by decide
  have hc : Clean newClient.toHttpClient := ⟨rfl, ⟨rfl, rfl, rfl, rfl, rfl, hlimit⟩, rfl, rfl⟩
  have hlines : ∀ l ∈ (getRequest (text "/")).lines (begun newClient.toHttpClient), l ≠ [] ∧ 13 ∉ l :=
    List.forall_mem_cons.mpr ⟨by decide, List.forall_mem_singleton.mpr (by decide)⟩
  obtain ⟨hcode, sent, key, -, -, -, hwaits⟩ := begin_listens (N := alwaysNet) (fun _ => rfl) hc
    (Vector.replicate 16 7) (text "/") rfl hlines (by simp) switchingLine_ok (by decide)
    upgradeHeader_ok (carries_ready switchingHead 0 (ready pingFrame.bytes))
  exact ⟨hcode, _, hwaits (by simp [upgradeHeader]) rfl⟩

end WebSocketClient
end Http
end TimerCam

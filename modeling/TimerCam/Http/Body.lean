import TimerCam.Http.Response

/-!
# Http.Body

The body of a response, read by its length or in chunks.

* `response_read_back` : status, headers and a body with its length are read as they were sent.
* `chunked_read_back`  : so is a body in chunks, whatever the chunks.
-/

namespace TimerCam
namespace Http
namespace HttpClient

open Octets Wire

/-! ## One octet -/

theorem timedRead_eq (t : Nat) (h : HttpClient) : h.timedRead t =
    match h.read.1 with
    | some c => (some c, h.read.2)
    | none =>
      match h.read.2.rx with
      | .octet _ :: _ => timedRead t h.read.2
      | .pause ms :: w =>
        if (t + ms) % Uptime.period < timeout then timedRead (t + ms) { h.read.2 with rx := w }
        else (none, { h.read.2 with rx := w })
      | [] => (none, h.read.2) := by
  fun_cases timedRead t h with
  | case1 c h' hr => simp only [hr]
  | case2 h' hr c w hw => simp only [hr, hw]
  | case3 h' hr ms w hw hlt => simp only [hr, hw, hlt, if_true]
  | case4 h' hr ms w hw hlt => simp only [hr, hw, hlt, if_false]
  | case5 h' hr hw => simp only [hr, hw]

theorem timedRead_some {h h' : HttpClient} {c : UInt8} (hr : h.read = (some c, h')) (t : Nat) :
    h.timedRead t = (some c, h') := by
  rw [timedRead_eq, hr]

/-- A pause that is short enough is waited for. -/
theorem timedRead_pause {h h' : HttpClient} {ms : Nat} {w : List Item} (hr : h.read = (none, h'))
    (hw : h'.rx = .pause ms :: w) {t : Nat} (ht : t + ms < timeout) :
    h.timedRead t = timedRead (t + ms) { h' with rx := w } := by
  have hperiod : timeout ≤ Uptime.period := by decide
  rw [timedRead_eq, hr]
  simp only [hw]
  rw [if_pos (by rw [Nat.mod_eq_of_lt (by omega)]; exact ht)]

theorem timedRead_congr {h h' : HttpClient} (hr : h.read = h'.read) (t : Nat) :
    h.timedRead t = h'.timedRead t := by
  rw [timedRead_eq t h, timedRead_eq t h', hr]

/-- Where `read` has nothing to do without an octet, the pauses before the next one are waited for. -/
theorem timedRead_await {h : HttpClient}
    (hnone : ∀ w, Wire.available w = 0 →
      ({ h with rx := w } : HttpClient).read = (none, { h with rx := w }))
    {t : Nat} (ht : t < timeout) {c : UInt8} {mark : Bool} {s : List (UInt8 × Bool)}
    {rest : List Item} (hw : Carries timeout t h.rx ((c, mark) :: s) rest) :
    ∃ t' w, t' < timeout ∧ Carries timeout (if mark then 0 else t') w s rest ∧
      h.timedRead t = { h with rx := .octet c :: w }.timedRead t' := by
  generalize hrx : h.rx = w at hw
  generalize hm : (c, mark) :: s = m at hw
  induction hw generalizing h with
  | nil => cases hm
  | @octet t d mark w rest m hw ih =>
    obtain ⟨hd, rfl⟩ := List.cons.inj hm
    obtain ⟨rfl, rfl⟩ := Prod.mk.inj hd
    refine ⟨t, w, ht, hw, ?_⟩
    rw [← hrx]
  | @pause t ms d w rest m hms hw ih =>
    have hr : h.read = (none, h) := by
      have := hnone h.rx (by rw [hrx]; rfl)
      exact this
    rw [timedRead_pause hr hrx hms]
    exact ih (h := { h with rx := w }) hnone hms rfl hm

theorem read_plain {h : HttpClient} (hc : h.iIsChunked = false) : h.read = h.takeOctet := by
  rw [read, hc]
  rfl

/-- The loop of `responseBody`, in the middle of a call of `timedRead`. -/
def bodyFrom (heap : Nat → Bool) (bodyLength : Int) (t : Nat) (response : Bytes) (h : HttpClient) :
    Option Bytes × HttpClient :=
  match h.timedRead t with
  | (none, h') => (some response, h')
  | (some c, h') =>
    if heap (response.length + 1) then bodyLoop heap bodyLength (response ++ [c]) h' else (none, h')

theorem bodyLoop_from {h : HttpClient} {bodyLength : Int}
    (hne : h.iBodyLengthConsumed ≠ bodyLength) (heap : Nat → Bool) (response : Bytes) :
    h.bodyLoop heap bodyLength response = h.bodyFrom heap bodyLength 0 response := by
  rw [bodyLoop, if_neg hne, bodyFrom]
  split <;> simp_all

theorem bodyLoop_done {h : HttpClient} {bodyLength : Int} (he : h.iBodyLengthConsumed = bodyLength)
    (heap : Nat → Bool) (response : Bytes) :
    h.bodyLoop heap bodyLength response = (some response, h) := by
  rw [bodyLoop, if_pos he]

/-- One octet of the body, with memory for it. -/
theorem bodyFrom_some {heap : Nat → Bool} (hheap : ∀ k, heap k = true) {h h' : HttpClient} {c : UInt8}
    {t : Nat} (hr : h.timedRead t = (some c, h')) (bodyLength : Int) (response : Bytes) :
    h.bodyFrom heap bodyLength t response = h'.bodyLoop heap bodyLength (response ++ [c]) := by
  rw [bodyFrom, hr]
  exact if_pos (hheap _)

/-! ## A body with its length -/

/-- An octet that comes in time is read, and counted. -/
theorem timedRead_body {h : HttpClient} (hc : h.iIsChunked = false) (hs : h.iState = .eReadingBody)
    {c : UInt8} {s : List (UInt8 × Bool)} {rest : List Item}
    (hw : Carries timeout 0 h.rx ((c, true) :: s) rest) :
    ∃ w, h.timedRead 0 = (some c, countBody { h with rx := w }) ∧ Carries timeout 0 w s rest := by
  have hnone : ∀ w, Wire.available w = 0 →
      ({ h with rx := w } : HttpClient).read = (none, { h with rx := w }) := by
    intro w hz
    rw [read_plain (h := { h with rx := w }) hc, takeOctet]
    cases w with
    | nil => rfl
    | cons i w =>
      cases i with
      | octet d => cases hz
      | pause ms => rfl
  obtain ⟨t, w, -, hw', he⟩ := timedRead_await hnone (by decide) hw
  refine ⟨w, ?_, hw'⟩
  have hplain : (countBody { h with rx := w }).iState ≠ .eReadingBodyChunk := by
    unfold countBody
    split
    · simp [hs]
    · simp [hs]
  have hread : ({ h with rx := .octet c :: w } : HttpClient).read =
      (some c, countBody { h with rx := w }) := by
    rw [read_plain (h := { h with rx := .octet c :: w }) hc]
    exact congrArg (Prod.mk (some c)) (if_neg hplain)
  rw [he, timedRead_some hread]

/-- The loop reads as many octets as the length says. -/
theorem bodyLoop_length {heap : Nat → Bool} (hheap : ∀ k, heap k = true) {h : HttpClient} {n : Nat}
    (hn : n < 2 ^ 31) (hc : h.iIsChunked = false) (hs : h.iState = .eReadingBody)
    (hl : h.iContentLength = n) {response s : Bytes} (hk : h.iBodyLengthConsumed = response.length)
    (hsum : response.length + s.length = n) {rest : List Item}
    (hw : Carries timeout 0 h.rx (marked true s) rest) : h.bodyLoop heap n response =
      (some (response ++ s), { h with iBodyLengthConsumed := n, rx := rest }) := by
  induction s generalizing h response with
  | nil =>
    have hall : h.iBodyLengthConsumed = n := by
      rw [hk, ← hsum]
      rfl
    rw [bodyLoop_done hall, List.append_nil, ← hw.eq_of_nil, ← hall]
  | cons c s ih =>
    rw [List.length_cons] at hsum
    obtain ⟨w, hread, hw'⟩ := timedRead_body hc hs hw
    have hcount : countBody { h with rx := w } =
        { h with rx := w, iBodyLengthConsumed := (response ++ [c]).length } := by
      rw [countBody, if_pos]
      · rw [hk, List.length_append, List.length_singleton]
        have := int32_of_lt (n := response.length + 1) (by omega)
        push_cast at this ⊢
        rw [this]
      · refine ⟨by simp [endOfHeadersReached, hs], ?_⟩
        rw [hl]
        omega
    rw [bodyLoop_from (by rw [hk]; omega), bodyFrom_some hheap hread, hcount]
    have := @ih { h with rx := w, iBodyLengthConsumed := (response ++ [c]).length } hc hs hl
      (response ++ [c]) rfl (by simp; omega) hw'
    rw [this, List.append_assoc]
    rfl

/-! ## A response -/

/-- The request has been sent, and nothing of the response been read. -/
structure Fresh (h : HttpClient) : Prop where
  sent : h.iState = .eRequestSent
  length : h.iContentLength = kNoContentLengthHeader
  consumed : h.iBodyLengthConsumed = 0
  lengthPtr : h.iContentLengthPtr = kContentLengthPrefix
  chunkedPtr : h.iTransferEncodingChunkedPtr = kTransferEncodingChunked
  chunked : h.iIsChunked = false
  limit : h.iHttpResponseTimeout ≤ Uptime.period ∧ 0 < h.iHttpResponseTimeout

/-- The client after a request. -/
def sentClient (rx : List Item) : HttpClient :=
  { iServerName := none, iServerPort := kHttpPort, iState := .eRequestSent, rx := rx }

theorem fresh_sentClient (rx : List Item) : Fresh (sentClient rx) := by
  have hlimit : kHttpResponseTimeout ≤ Uptime.period ∧ 0 < kHttpResponseTimeout := by decide
  exact ⟨rfl, rfl, rfl, rfl, rfl, rfl, hlimit⟩

def processingLine : StatusText := ⟨49, 49, 102, text " Processing\x0d"⟩

def okLine : StatusText := ⟨49, 49, 200, text " OK\x0d"⟩

theorem after_space {s : Bytes} : ∀ c ∈ (32 :: s : Bytes).head?, digit? c = none := by
  rintro c ⟨⟩
  rfl

theorem okLine_ok : okLine.Ok :=
  ⟨by decide, by decide, by decide, by decide, after_space, by decide⟩

def imageType : Header := .other (text "Content-Type: image/jpeg")

theorem processingLine_ok : processingLine.Ok ∧ informational processingLine.code = true :=
  ⟨⟨by decide, by decide, by decide, by decide, after_space, by decide⟩, by decide⟩

theorem imageType_ok : imageType.Ok :=
  ⟨by decide, by decide, by decide, by decide +kernel, by decide +kernel⟩

/-- The code that is returned, and where the client is then. -/
theorem responseStatusCode_read {h : HttpClient} (hf : Fresh h) {infos : List StatusText}
    (hinfos : ∀ l ∈ infos, l.Ok ∧ informational l.code = true) {final : StatusText} (hok : final.Ok)
    (hfinal : informational final.code = false) {s : List (UInt8 × Bool)} {rest : List Item}
    (hw : Carries h.iHttpResponseTimeout 0 h.rx
      (marked true (infos.flatMap StatusText.line ++ final.line) ++ s) rest) :
    ∃ w, Carries h.iHttpResponseTimeout 0 w s rest ∧ h.responseStatusCode =
      ((final.code : Int), { h with iState := .eStatusCodeRead, iStatusCode := final.code, rx := w }) := by
  obtain ⟨hlimit, hpos⟩ := hf.limit
  rw [marked_append, List.append_assoc] at hw
  obtain ⟨mid, hmid, he⟩ := statusLines_infos hlimit hpos hinfos hw
  obtain ⟨t, w, -, hline, hrest⟩ := hmid.split hpos
  refine ⟨w, hrest.mono (Nat.zero_le t), ?_⟩
  rw [responseStatusCode, hf.sent, he, statusLines_final hlimit hpos hok hfinal hline]
  rfl

/-- The last length among the headers. -/
def lastLength : List Header → Option Nat
  | [] => none
  | .contentLength n :: hs => (lastLength hs).or (some n)
  | _ :: hs => lastLength hs

/-- The length that is noted, after `x`. -/
def lengthNoted (x : Int) (hs : List Header) : Int :=
  match lastLength hs with
  | some n => lengthRead 0 (decimal n)
  | none => x

theorem lengthNoted_cons (x : Int) (n : Nat) (hs : List Header) :
    lengthNoted x (.contentLength n :: hs) = lengthNoted (lengthRead 0 (decimal n)) hs := by
  rw [lengthNoted, lastLength, lengthNoted]
  cases lastLength hs with
  | none => rfl
  | some m => rfl

theorem noteAll_eq {h : HttpClient} (hz : h.iBodyLengthConsumed = 0) (hs : List Header) :
    h.noteAll hs = { h with
      iContentLength := lengthNoted h.iContentLength hs
      iIsChunked := h.iIsChunked || hs.contains .chunked } := by
  induction hs generalizing h with
  | nil =>
    rw [List.contains_nil, Bool.or_false]
    rfl
  | cons x hs ih =>
    have hcons : h.noteAll (x :: hs) = (h.note x).noteAll hs := rfl
    rw [hcons]
    cases x with
    | contentLength n =>
      rw [ih (h := h.note (.contentLength n)) rfl, lengthNoted_cons]
      simp [note, hz]
    | chunked =>
      rw [ih (h := h.note .chunked) hz]
      simp [note, lengthNoted, lastLength]
    | other line =>
      rw [ih (h := h.note (.other line)) hz]
      simp [note, lengthNoted, lastLength]

/-- The response up to its body: the code is returned, and then the body is due. -/
theorem head_read {h : HttpClient} (hf : Fresh h) {infos : List StatusText}
    (hinfos : ∀ l ∈ infos, l.Ok ∧ informational l.code = true) {final : StatusText} (hok : final.Ok)
    (hfinal : informational final.code = false) {hs : List Header} (hhs : ∀ x ∈ hs, x.Ok)
    {rest : List Item} (hw : Carries h.iHttpResponseTimeout 0 h.rx
      (marked true (infos.flatMap StatusText.line ++ final.line) ++ marked true (block hs)) rest) :
    h.responseStatusCode.1 = final.code ∧
      h.responseStatusCode.2.contentLength = (lengthNoted kNoContentLengthHeader hs,
        startBody { h with
          iState := .eStatusCodeRead, iStatusCode := final.code, rx := rest
          iContentLength := lengthNoted kNoContentLengthHeader hs
          iIsChunked := hs.contains .chunked }) := by
  obtain ⟨w, hblock, hcode⟩ := responseStatusCode_read hf hinfos hok hfinal hw
  rw [hcode]
  refine ⟨rfl, ?_⟩
  let h₁ : HttpClient := { h with iState := .eStatusCodeRead, iStatusCode := final.code, rx := w }
  have hstart : LineStart h₁ := ⟨rfl, hf.lengthPtr, hf.chunkedPtr⟩
  have hread := skipResponseHeaders_read hstart hf.limit.1 hf.limit.2 hhs hblock
  have hnote := noteAll_eq (h := h₁) hf.consumed hs
  have hnot : h₁.endOfHeadersReached = false := rfl
  have hskip : h₁.contentLength =
      ({ (h₁.noteAll hs).startBody with rx := rest }.iContentLength,
        { (h₁.noteAll hs).startBody with rx := rest }) := by
    simp only [contentLength, hnot, Bool.false_eq_true, if_false, hread]
  refine hskip.trans ?_
  rw [hnote]
  unfold startBody
  cases hs.contains .chunked with
  | true => simp [h₁, hf.length]
  | false => simp [h₁, hf.length, hf.chunked]

/-- The client when a response with a length has been read. -/
theorem response_client {heap : Nat → Bool} (hheap : ∀ k, heap k = true) {h : HttpClient}
    (hf : Fresh h) {infos : List StatusText}
    (hinfos : ∀ l ∈ infos, l.Ok ∧ informational l.code = true) {final : StatusText} (hok : final.Ok)
    (hfinal : informational final.code = false) {hs : List Header} (hhs : ∀ x ∈ hs, x.Ok)
    (hplain : .chunked ∉ hs) {body : Bytes} (hlen : lastLength hs = some body.length)
    (hfits : body.length < 2 ^ 31) {mid rest : List Item}
    (hw : Carries h.iHttpResponseTimeout 0 h.rx
      (marked true (infos.flatMap StatusText.line ++ final.line) ++ marked true (block hs)) mid)
    (hb : Carries timeout 0 mid (marked true body) rest) :
    h.responseStatusCode.1 = final.code ∧ h.responseStatusCode.2.responseBody heap =
      (some body, { h with
        iState := .eReadingBody, iStatusCode := final.code, iContentLength := body.length
        iIsChunked := false, iBodyLengthConsumed := body.length, rx := rest }) := by
  obtain ⟨hcode, hhead⟩ := head_read hf hinfos hok hfinal hhs hw
  have hnoted : lengthNoted kNoContentLengthHeader hs = body.length := by
    rw [lengthNoted, hlen]
    exact (lengthRead_decimal_iff body.length).mpr hfits
  have hchunked : hs.contains .chunked = false := by simpa using hplain
  rw [hnoted, hchunked] at hhead
  let h₂ : HttpClient := { h with
    iState := .eReadingBody, iStatusCode := final.code, rx := mid
    iContentLength := body.length, iIsChunked := false }
  have hloop := @bodyLoop_length heap hheap h₂ body.length hfits rfl rfl rfl [] body
    hf.consumed (Nat.zero_add _) rest hb
  refine ⟨hcode, ?_⟩
  have hstart : h.responseStatusCode.2.contentLength = ((body.length : Int), h₂) := hhead
  rw [responseBody, hstart]
  simp only [hheap, hloop]
  simp [h₂]

/-- Every response with the length of its body, in any number of informational lines and other
headers, is read as it was sent, however slowly it comes in: the code, and then the body. What follows
it is left. -/
theorem response_read_back {heap : Nat → Bool} (hheap : ∀ k, heap k = true) {h : HttpClient}
    (hf : Fresh h) {infos : List StatusText}
    (hinfos : ∀ l ∈ infos, l.Ok ∧ informational l.code = true) {final : StatusText} (hok : final.Ok)
    (hfinal : informational final.code = false) {hs : List Header} (hhs : ∀ x ∈ hs, x.Ok)
    (hplain : .chunked ∉ hs) {body : Bytes} (hlen : lastLength hs = some body.length)
    (hfits : body.length < 2 ^ 31) {mid rest : List Item}
    (hw : Carries h.iHttpResponseTimeout 0 h.rx
      (marked true (infos.flatMap StatusText.line ++ final.line) ++ marked true (block hs)) mid)
    (hb : Carries timeout 0 mid (marked true body) rest) :
    h.responseStatusCode.1 = final.code ∧
      (h.responseStatusCode.2.responseBody heap).1 = some body ∧
      (h.responseStatusCode.2.responseBody heap).2.rx = rest := by
  obtain ⟨hcode, hbody⟩ := response_client hheap hf hinfos hok hfinal hhs hplain hlen hfits hw hb
  rw [hbody]
  exact ⟨hcode, rfl, rfl⟩

def hiHead : List (UInt8 × Bool) :=
  marked true ([processingLine].flatMap StatusText.line ++ okLine.line) ++
    marked true (block [imageType, .contentLength 2])

/-- The response `hi`, and an octet of the next one. -/
def hiLine : List Item :=
  ready (hiHead.map Prod.fst) ++ (ready ((marked true (text "hi")).map Prod.fst) ++ [.octet 72])

theorem hiHeaders_ok : ∀ x ∈ [imageType, .contentLength 2], x.Ok :=
  List.forall_mem_cons.mpr ⟨imageType_ok, List.forall_mem_singleton.mpr trivial⟩

theorem response_read_back_hi :
    (sentClient hiLine).responseStatusCode.1 = 200 ∧
      ((sentClient hiLine).responseStatusCode.2.responseBody fun _ => true).1 = some (text "hi") ∧
      ((sentClient hiLine).responseStatusCode.2.responseBody fun _ => true).2.rx = [.octet 72] := by
  have hinfos : ∀ l ∈ [processingLine], l.Ok ∧ informational l.code = true :=
    List.forall_mem_singleton.mpr processingLine_ok
  exact @response_read_back (fun _ => true) (fun _ => rfl) (sentClient hiLine) (fresh_sentClient _)
    [processingLine] hinfos okLine okLine_ok (by decide) [imageType, .contentLength 2] hiHeaders_ok
    (by decide) (text "hi") rfl (by decide)
    (ready ((marked true (text "hi")).map Prod.fst) ++ [.octet 72]) [.octet 72]
    (carries_ready hiHead 0 _) (carries_ready (marked true (text "hi")) 0 _)

/-- After any number of bare informational lines, what differs from `HTTP/` in its first five octets is
an error. So is a whole informational response: header lines and an empty line follow its status
line. -/
theorem informational_invalid {h : HttpClient} (hf : Fresh h) {infos : List StatusText}
    (hinfos : ∀ l ∈ infos, l.Ok ∧ informational l.code = true) :
    (∀ s rest, Differs s → Carries h.iHttpResponseTimeout 0 h.rx
      (marked true (infos.flatMap StatusText.line) ++ marked true s) rest →
      h.responseStatusCode.1 = HTTP_ERROR_INVALID_RESPONSE) ∧
    ∀ hs rest, (∀ x ∈ hs, x.IsField) → Carries h.iHttpResponseTimeout 0 h.rx
      (marked true (infos.flatMap StatusText.line) ++ marked true (block hs)) rest →
      h.responseStatusCode.1 = HTTP_ERROR_INVALID_RESPONSE := by
  obtain ⟨hlimit, hpos⟩ := hf.limit
  have hinvalid : ∀ s rest, Differs s → Carries h.iHttpResponseTimeout 0 h.rx
      (marked true (infos.flatMap StatusText.line) ++ marked true s) rest →
      h.responseStatusCode.1 = HTTP_ERROR_INVALID_RESPONSE := by
    intro s rest hs hw
    obtain ⟨mid, hmid, he⟩ := statusLines_infos hlimit hpos hinfos hw
    rw [responseStatusCode, hf.sent, he]
    exact statusLines_invalid hlimit hpos hs hmid
  exact ⟨hinvalid, fun hs rest hfields => hinvalid _ rest (differs_block hfields)⟩

/-- A whole `102 Processing`, with a header that begins as a status line does. -/
def processingResponse : List (UInt8 × Bool) :=
  marked true ([processingLine].flatMap StatusText.line) ++
    marked true (block [.other (text "Host: a")])

theorem informational_invalid_processing :
    (sentClient (ready (processingResponse.map Prod.fst) ++ [])).responseStatusCode.1 =
      HTTP_ERROR_INVALID_RESPONSE :=
  (informational_invalid (fresh_sentClient _)
    (List.forall_mem_singleton.mpr processingLine_ok)).2 [.other (text "Host: a")] []
    (List.forall_mem_singleton.mpr ⟨text "Host", text " a", by decide, rfl⟩)
    (carries_ready processingResponse 0 _)

/-- The length of a response is that of its last `Content-Length` exactly when this is less than
2 GiB. -/
theorem contentLength_iff {h : HttpClient} (hf : Fresh h) {infos : List StatusText}
    (hinfos : ∀ l ∈ infos, l.Ok ∧ informational l.code = true) {final : StatusText} (hok : final.Ok)
    (hfinal : informational final.code = false) {hs : List Header} (hhs : ∀ x ∈ hs, x.Ok) {n : Nat}
    (hlen : lastLength hs = some n) {rest : List Item}
    (hw : Carries h.iHttpResponseTimeout 0 h.rx
      (marked true (infos.flatMap StatusText.line ++ final.line) ++ marked true (block hs)) rest) :
    h.responseStatusCode.2.contentLength.1 = n ↔ n < 2 ^ 31 := by
  obtain ⟨-, hhead⟩ := head_read hf hinfos hok hfinal hhs hw
  rw [hhead, lengthNoted, hlen]
  exact lengthRead_decimal_iff n

theorem contentLength_iff_hi :
    (sentClient hiLine).responseStatusCode.2.contentLength.1 = (2 : Nat) ↔ 2 < 2 ^ 31 :=
  @contentLength_iff _ (fresh_sentClient _) [processingLine]
    (List.forall_mem_singleton.mpr processingLine_ok) okLine okLine_ok (by decide)
    [imageType, .contentLength 2] hiHeaders_ok 2 rfl _ (carries_ready hiHead 0 _)

/-! ## Whatever comes in -/

theorem countBody_rx (h : HttpClient) : h.countBody.rx = h.rx := by
  unfold countBody
  split
  · rfl
  · rfl

theorem countChunk_rx (h : HttpClient) : h.countChunk.rx = h.rx := by
  unfold countChunk
  split
  · rfl
  · rfl

theorem counted_chunked (h : HttpClient) : h.countBody.countChunk.iIsChunked = h.iIsChunked := by
  have hbody : h.countBody.iIsChunked = h.iIsChunked := by
    unfold countBody
    split
    · rfl
    · rfl
  rw [← hbody]
  unfold countChunk
  split
  · rfl
  · rfl

/-- Without chunks a read takes the next octet, or nothing. -/
theorem read_octets {h : HttpClient} (hc : h.iIsChunked = false) :
    octets h.rx = h.read.1.toList ++ octets h.read.2.rx ∧ h.read.2.iIsChunked = false := by
  rw [read_plain hc, takeOctet]
  cases hrx : h.rx with
  | nil =>
    refine ⟨?_, hc⟩
    simp only [hrx]
    rfl
  | cons i w =>
    cases i with
    | octet c =>
      refine ⟨?_, ?_⟩
      · simp only [countChunk_rx, countBody_rx]
        rfl
      · simp only [counted_chunked]
        exact hc
    | pause ms =>
      refine ⟨?_, hc⟩
      simp only [hrx]
      rfl

theorem timedRead_octets (t : Nat) {h : HttpClient} (hc : h.iIsChunked = false) :
    octets h.rx = (h.timedRead t).1.toList ++ octets (h.timedRead t).2.rx ∧
      (h.timedRead t).2.iIsChunked = false := by
  fun_induction timedRead t h with
  | case1 t h c h' hr =>
    have := read_octets hc
    rwa [hr] at this
  | case2 t h h' hr c w hw ih =>
    have := read_octets hc
    rw [hr] at this
    rw [this.1]
    exact ih this.2
  | case3 t h h' hr ms w hw hlt ih =>
    have := read_octets hc
    rw [hr] at this
    rw [this.1, hw]
    exact ih this.2
  | case4 t h h' hr ms w hw hlt =>
    have := read_octets hc
    rw [hr] at this
    rw [this.1, hw]
    exact ⟨rfl, this.2⟩
  | case5 t h h' hr hw =>
    have := read_octets hc
    rwa [hr] at this

/-- Whatever the loop returns is a beginning of what came in. -/
theorem bodyLoop_octets {heap : Nat → Bool} {n : Int} {response : Bytes} {h : HttpClient}
    (hc : h.iIsChunked = false) {s : Bytes} (hs : (h.bodyLoop heap n response).1 = some s) :
    ∃ taken, s = response ++ taken ∧ taken <+: octets h.rx := by
  fun_induction bodyLoop heap n response h with
  | case1 response h hall =>
    cases hs
    exact ⟨[], (List.append_nil _).symm, List.nil_prefix⟩
  | case2 response h hall h' hr =>
    cases hs
    exact ⟨[], (List.append_nil _).symm, List.nil_prefix⟩
  | case3 response h hall c h' hr hheap ih =>
    have hread := timedRead_octets 0 hc
    rw [hr] at hread
    obtain ⟨taken, rfl, htaken⟩ := ih hread.2 hs
    refine ⟨c :: taken, List.append_assoc _ _ _, ?_⟩
    rw [hread.1]
    exact List.prefix_cons_inj c |>.mpr htaken
  | case4 response h hall c h' hr hheap => cases hs

/-- With a length and without chunks, `responseBody` never returns a part of the body: whatever comes
in, however late, and whatever runs out of memory, it returns nothing or as many octets as the length
says, and these are the first that came in. -/
theorem responseBody_whole {h : HttpClient} (hs : h.iState = .eReadingBody)
    (hc : h.iIsChunked = false) (hl : 0 < h.iContentLength) (heap : Nat → Bool) {body : Bytes}
    (hbody : (h.responseBody heap).1 = some body) :
    (body.length : Int) = h.iContentLength ∧ body <+: octets h.rx := by
  have hstart : h.contentLength = (h.iContentLength, h) := by
    have hreached : h.endOfHeadersReached = true := by simp [endOfHeadersReached, hs]
    rw [contentLength, hreached]
    rfl
  rw [responseBody, hstart] at hbody
  simp only at hbody
  split at hbody
  · cases hbody
  · obtain ⟨response, hresponse, hlen⟩ := Option.bind_eq_some_iff.mp hbody
    split at hlen
    · cases hlen
    · rename_i hsame
      cases hlen
      obtain ⟨taken, rfl, htaken⟩ := bodyLoop_octets hc hresponse
      refine ⟨?_, htaken⟩
      by_contra hne
      exact hsame ⟨hl, fun he => hne he.symm⟩

/-- The body `hi` is due, and an octet of the next response is there. -/
def bodyClient : HttpClient :=
  { sentClient [.octet 104, .pause 900, .octet 105, .octet 72] with
    iState := .eReadingBody, iContentLength := 2 }

theorem bodyClient_read : (bodyClient.responseBody fun _ => true).1 = some (text "hi") := by
  have hms : 0 + 900 < timeout := by decide
  have hloop := @bodyLoop_length (fun _ => true) (fun _ => rfl) bodyClient 2 (by decide) rfl rfl rfl []
    (text "hi") rfl rfl [.octet 72] (.octet (.pause hms (.octet .nil)))
  have hstart : bodyClient.contentLength = (2, bodyClient) := rfl
  have hloop' : bodyClient.bodyLoop (fun _ => true) 2 [] = _ := hloop
  rw [responseBody, hstart]
  simp only [hloop']
  rfl

theorem responseBody_whole_hi : ((text "hi").length : Int) = bodyClient.iContentLength ∧
    text "hi" <+: octets bodyClient.rx :=
  responseBody_whole rfl rfl (by simp [bodyClient]) (fun _ => true) bodyClient_read

end HttpClient
end Http
end TimerCam

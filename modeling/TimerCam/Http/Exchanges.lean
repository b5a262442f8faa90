import TimerCam.Http.Request
import TimerCam.Http.Chunks
import TimerCam.Lib.Mealy

/-!
# Http.Exchanges

One request after the other on the same client.

* `fresh_iff`           : when a request leaves nothing behind of the response before.
* `exchanges_read_back` : in every run of exchanges each reply is read as it was sent.
-/

namespace TimerCam
namespace Http
namespace HttpClient

open Octets Wire

/-! ## A request on a used client -/

/-- A response is being read, or has been. -/
def receiving (h : HttpClient) : Bool := h.endOfHeadersReached

/-- A request, the calls that go with it, and the end of its header block. -/
def perform (N : Net) (r : Request) (cs : List Call) (h : HttpClient) : HttpClient :=
  ((r.start N h).2.runCalls cs).endRequest

/-- Nothing is left of an earlier response. -/
structure AtStart (h : HttpClient) : Prop where
  length : h.iContentLength = kNoContentLengthHeader
  consumed : h.iBodyLengthConsumed = 0
  lengthPtr : h.iContentLengthPtr = kContentLengthPrefix
  chunkedPtr : h.iTransferEncodingChunkedPtr = kTransferEncodingChunked
  chunked : h.iIsChunked = false
  limit : h.iHttpResponseTimeout ≤ Uptime.period ∧ 0 < h.iHttpResponseTimeout

theorem atStart_reset (h : HttpClient) : AtStart h.resetState := by
  have hlimit : kHttpResponseTimeout ≤ Uptime.period ∧ 0 < kHttpResponseTimeout := by decide
  exact ⟨rfl, rfl, rfl, rfl, rfl, hlimit⟩

/-- A call sends, and may end the header block. -/
theorem call_frame (c : Call) (h : HttpClient) : ∃ tx s, c.run h = { h with tx := tx, iState := s } ∧
    (s = h.iState ∨ s = .eRequestSent) := by
  rw [call_run]
  split
  · exact ⟨_, _, rfl, .inr rfl⟩
  · exact ⟨_, _, rfl, .inl rfl⟩

theorem calls_frame (cs : List Call) (h : HttpClient) : ∃ tx s,
    h.runCalls cs = { h with tx := tx, iState := s } ∧ (s = h.iState ∨ s = .eRequestSent) := by
  induction cs generalizing h with
  | nil => exact ⟨h.tx, h.iState, rfl, .inl rfl⟩
  | cons c cs ih =>
    obtain ⟨tx, s, hc, hs⟩ := call_frame c h
    obtain ⟨tx', s', hcs, hs'⟩ := ih (c.run h)
    have hcons : h.runCalls (c :: cs) = (c.run h).runCalls cs := rfl
    refine ⟨tx', s', ?_, ?_⟩
    · rw [hcons, hcs, hc]
    · rw [hc] at hs'
      rcases hs' with rfl | rfl
      · exact hs
      · exact .inr rfl

/-- A request on a client that does not receive changes nothing of what the response needs. -/
theorem perform_frame {N : Net} {h : HttpClient} (hs : h.iState.beforeSent = true)
    (hnet : (h.connects N).1 = true) (r : Request) (cs : List Call) : ∃ tx asked,
    perform N r cs h = { h with tx := tx, asked := asked, iState := .eRequestSent } := by
  have hconnects : ∃ asked, (h.connects N).2 = { h with asked := asked } := by
    unfold connects
    split
    · exact ⟨_, rfl⟩
    · split
      · exact ⟨_, rfl⟩
      · exact ⟨_, rfl⟩
  obtain ⟨asked, hasked⟩ := hconnects
  have hstart : ∃ tx s, (r.start N h).2 = { h with tx := tx, asked := asked, iState := s } ∧
      (s = .eRequestStarted ∨ s = .eRequestSent) := by
    rw [start_eq hs hnet, hasked]
    split
    · exact ⟨_, _, rfl, .inr rfl⟩
    · exact ⟨_, _, rfl, .inl rfl⟩
  obtain ⟨tx, s, hstart, hstate⟩ := hstart
  obtain ⟨tx', s', hcalls, hstate'⟩ := calls_frame cs (r.start N h).2
  rw [hstart] at hcalls hstate'
  rw [perform, hstart, hcalls, endRequest, beginBody]
  rcases hstate' with rfl | rfl
  · rcases hstate with rfl | rfl
    · exact ⟨_, asked, rfl⟩
    · exact ⟨_, asked, rfl⟩
  · exact ⟨_, asked, rfl⟩

/-- On a client that receives, a request first throws away what has come in and all that it knew. -/
theorem start_receiving {h : HttpClient} (hr : h.receiving = true) (N : Net) (r : Request) :
    r.start N h = r.start N h.flushClientRx.resetState := by
  have hbody : h.iState = .eReadingBody ∨ h.iState = .eReadingChunkLength ∨
      h.iState = .eReadingBodyChunk := by
    simpa [receiving, endOfHeadersReached, or_assoc] using hr
  have hidle : ¬ (h.flushClientRx.resetState.iState = .eReadingBody ∨
      h.flushClientRx.resetState.iState = .eReadingChunkLength ∨
      h.flushClientRx.resetState.iState = .eReadingBodyChunk) := by
    simp [resetState]
  rw [Request.start, Request.start, startRequest, startRequest]
  simp only [if_pos hbody, if_neg hidle]

theorem perform_receiving {h : HttpClient} (hr : h.receiving = true) (N : Net) (r : Request)
    (cs : List Call) : perform N r cs h = perform N r cs h.flushClientRx.resetState := by
  rw [perform, perform, start_receiving hr]

section Fresh

variable {N : Net} (hnet : ∀ k, N.connect k = true)
include hnet

theorem connects_all (h : HttpClient) : (h.connects N).1 = true := by
  unfold connects
  split
  · exact hnet _
  · split
    · rfl
    · exact hnet _

theorem fresh_perform_iff {h : HttpClient} (hs : h.iState.beforeSent = true) (r : Request)
    (cs : List Call) : Fresh (perform N r cs h) ↔ AtStart h := by
  obtain ⟨tx, asked, hp⟩ := perform_frame hs (connects_all hnet h) r cs
  rw [hp]
  constructor
  · rintro ⟨-, h₁, h₂, h₃, h₄, h₅, h₆⟩
    exact ⟨h₁, h₂, h₃, h₄, h₅, h₆⟩
  · rintro ⟨h₁, h₂, h₃, h₄, h₅, h₆⟩
    exact ⟨rfl, h₁, h₂, h₃, h₄, h₅, h₆⟩

/-- `startRequest` takes the request: none has been sent since the last reset, or the headers of its
response have been read. -/
def Startable (h : HttpClient) : Prop := h.iState.beforeSent = true ∨ h.receiving = true

omit hnet in
theorem start_refused {h : HttpClient} (hs : ¬ h.Startable) (r : Request) :
    r.start N h = (HTTP_ERROR_API, h) := by
  have hbody : ¬ (h.iState = .eReadingBody ∨ h.iState = .eReadingChunkLength ∨
      h.iState = .eReadingBodyChunk) := by
    intro he
    exact hs (.inr (by simpa [receiving, endOfHeadersReached, or_assoc] using he))
  have hmiddle : h.iState ≠ .eIdle ∧ h.iState ≠ .eRequestStarted := by
    refine ⟨fun he => hs (.inl ?_), fun he => hs (.inl ?_)⟩
    · rw [he]
      rfl
    · rw [he]
      rfl
  rw [Request.start, startRequest]
  simp only [if_neg hbody, if_pos hmiddle]

/-- A request leaves nothing of the response before exactly where the client sees that one has been
read, or nothing was left. After `beginRequest` it does not see that. Between the request and the end
of the response's headers a new request is refused, and changes nothing. -/
theorem fresh_iff (h : HttpClient) (r : Request) (cs : List Call) :
    (h.Startable → (Fresh (perform N r cs h) ↔ h.receiving = true ∨ AtStart h)) ∧
      (¬ h.Startable → r.start N h = (HTTP_ERROR_API, h)) := by
  refine ⟨fun hs => ?_, fun hs => start_refused hs r⟩
  by_cases hr : h.receiving = true
  · rw [perform_receiving hr]
    exact iff_of_true ((fresh_perform_iff hnet rfl r cs).mpr (atStart_reset _)) (.inl hr)
  · rw [fresh_perform_iff hnet (hs.resolve_right hr), or_iff_right hr]

end Fresh

def getRoot : Request := { aURLPath := text "/", aHttpMethod := text "GET" }

/-- A connection that is always there. -/
def alwaysNet : Net := { connect := fun _ => true, connected := fun _ => true }

/-- A client that has read a response in chunks. -/
def usedClient : HttpClient :=
  { sentClient [] with iState := .eReadingChunkLength, iIsChunked := true }

/-- A client of which only the status line of a response has been read. -/
def halfwayClient : HttpClient := { sentClient [] with iState := .eStatusCodeRead }

theorem fresh_iff_begun : ¬ Fresh (perform alwaysNet getRoot [] usedClient.beginRequest) ∧
    Fresh (perform alwaysNet getRoot [] usedClient) ∧
    getRoot.start alwaysNet halfwayClient = (HTTP_ERROR_API, halfwayClient) := by
  have hnet : ∀ k, alwaysNet.connect k = true := fun _ => rfl
  refine ⟨fun hf => ?_, ((fresh_iff hnet usedClient getRoot []).1 (.inr rfl)).mpr (.inl rfl),
    (fresh_iff hnet halfwayClient getRoot []).2 ?_⟩
  · rcases ((fresh_iff hnet usedClient.beginRequest getRoot []).1 (.inl rfl)).mp hf with h | h
    · cases h
    · cases h.chunked
  · rintro (h | h)
    · cases h
    · cases h

/-! ## Exchanges -/

/-- What comes in for a request: a response with its length or in chunks, in any informational lines
and headers, with the pauses that the client bears. What follows it is there at once, or after the
silence that ends a body in chunks. -/
inductive Reply : List Item → Nat → Bytes → Prop where
  | length {infos : List StatusText} (hinfos : ∀ l ∈ infos, l.Ok ∧ informational l.code = true)
      {final : StatusText} (hok : final.Ok) (hfinal : informational final.code = false)
      {hs : List Header} (hhs : ∀ x ∈ hs, x.Ok) (hplain : .chunked ∉ hs) {body : Bytes}
      (hlen : lastLength hs = some body.length) (hfits : body.length < 2 ^ 31)
      {w mid rest : List Item}
      (hw : Carries kHttpResponseTimeout 0 w
        (marked true (infos.flatMap StatusText.line ++ final.line) ++ marked true (block hs)) mid)
      (hb : Carries timeout 0 mid (marked true body) rest) (hrest : rest.drop (Wire.available rest) = []) :
      Reply w final.code body
  | chunks {infos : List StatusText} (hinfos : ∀ l ∈ infos, l.Ok ∧ informational l.code = true)
      {final : StatusText} (hok : final.Ok) (hfinal : informational final.code = false)
      {hs : List Header} (hhs : ∀ x ∈ hs, x.Ok) (hchunked : .chunked ∈ hs)
      (hlen : lastLength hs = none) {cs : List Chunk} (hcs : ∀ c ∈ cs, c.Ok ∧ c.data ≠ [])
      {last : Chunk} (hlast : last.Ok) (hend : last.data = []) {w mid rest : List Item}
      (hw : Carries kHttpResponseTimeout 0 w
        (marked true (infos.flatMap StatusText.line ++ final.line) ++ marked true (block hs)) mid)
      (hb : Carries timeout 0 mid (cs.flatMap Chunk.marks ++ last.marks) rest)
      (hsilent : Silent timeout rest) (hrest : rest.tail.drop (Wire.available rest.tail) = []) :
      Reply w final.code (cs.flatMap Chunk.data)

/-- An exchange: the client may be stopped before it, and `beginRequest` be called. -/
structure Exchange where
  stops : Bool
  begins : Bool
  request : Request
  calls : List Call
  reply : List Item
  code : Nat
  body : Bytes

/-- The code and the body that the program gets. What is sent is answered by `reply`. -/
def exchange (N : Net) (heap : Nat → Bool) (h : HttpClient) (e : Exchange) :
    HttpClient × (Int × Option Bytes) :=
  let h := if e.stops then h.stop else h
  let h := if e.begins then h.beginRequest else h
  let h := perform N e.request e.calls h
  let h := { h with rx := h.rx ++ e.reply }
  let s := h.responseStatusCode
  let b := s.2.responseBody heap
  (b.2, (s.1, b.1))

/-- Nothing has happened yet, or a request has been announced. -/
structure Clean (h : HttpClient) : Prop where
  state : h.iState.beforeSent = true
  start : AtStart h
  limit : h.iHttpResponseTimeout = kHttpResponseTimeout
  rx : h.rx = []

/-- Between two exchanges: nothing has happened yet, or a response has been read and the rest of it is
there. -/
def Settled (h : HttpClient) : Prop :=
  Clean h ∨ h.receiving = true ∧ h.rx.drop (Wire.available h.rx) = []

/-- A new client. -/
theorem settled_new (iServerName : Option Bytes) (iServerPort : Nat) :
    Settled { iServerName := iServerName, iServerPort := iServerPort } := by
  have hlimit : kHttpResponseTimeout ≤ Uptime.period ∧ 0 < kHttpResponseTimeout := by decide
  exact .inl ⟨rfl, ⟨rfl, rfl, rfl, rfl, rfl, hlimit⟩, rfl, rfl⟩

theorem clean_reset {h : HttpClient} (hrx : h.rx = []) : Clean h.resetState :=
  ⟨rfl, atStart_reset h, rfl, hrx⟩

theorem clean_stop (h : HttpClient) : Clean h.stop :=
  clean_reset (h := { h with rx := [] }) rfl

theorem clean_begin {h : HttpClient} (hc : Clean h) : Clean h.beginRequest := by
  obtain ⟨h₁, h₂, h₃, h₄, h₅, h₆⟩ := hc.start
  exact ⟨rfl, ⟨h₁, h₂, h₃, h₄, h₅, h₆⟩, hc.limit, hc.rx⟩

/-- The reply will be all there is to read, with the limits of a new client. -/
theorem perform_clean {N : Net} (hnet : ∀ k, N.connect k = true) {h : HttpClient} (hc : Clean h)
    (r : Request) (cs : List Call) : Fresh (perform N r cs h) ∧
      (perform N r cs h).iHttpResponseTimeout = kHttpResponseTimeout ∧ (perform N r cs h).rx = [] := by
  refine ⟨(fresh_perform_iff hnet hc.state r cs).mpr hc.start, ?_⟩
  obtain ⟨tx, asked, hp⟩ := perform_frame hc.state (connects_all hnet h) r cs
  rw [hp]
  exact ⟨hc.limit, hc.rx⟩

theorem perform_settled {N : Net} (hnet : ∀ k, N.connect k = true) {h : HttpClient}
    (hs : Settled h) (r : Request) (cs : List Call) : Fresh (perform N r cs h) ∧
      (perform N r cs h).iHttpResponseTimeout = kHttpResponseTimeout ∧ (perform N r cs h).rx = [] := by
  rcases hs with hc | ⟨hr, hstale⟩
  · exact perform_clean hnet hc r cs
  · rw [perform_receiving hr]
    exact perform_clean hnet (clean_reset (h := h.flushClientRx) hstale) r cs

/-- A reply is read, and what is left of it can be thrown away. -/
theorem reply_read {heap : Nat → Bool} (hheap : ∀ k, heap k = true) {h : HttpClient} (hf : Fresh h)
    (hlimit : h.iHttpResponseTimeout = kHttpResponseTimeout) {code : Nat} {body : Bytes}
    (hreply : Reply h.rx code body) : h.responseStatusCode.1 = code ∧
      (h.responseStatusCode.2.responseBody heap).1 = some body ∧
      Settled (h.responseStatusCode.2.responseBody heap).2 := by
  generalize hrx : h.rx = w at hreply
  cases hreply with
  | length hinfos hok hfinal hhs hplain hlen hfits hw hb hrest =>
    rw [← hrx, ← hlimit] at hw
    obtain ⟨hcode, hbody⟩ := response_client hheap hf hinfos hok hfinal hhs hplain hlen hfits hw hb
    rw [hbody]
    exact ⟨hcode, rfl, .inr ⟨rfl, hrest⟩⟩
  | chunks hinfos hok hfinal hhs hchunked hlen hcs hlast hend hw hb hsilent hrest =>
    rw [← hrx, ← hlimit] at hw
    obtain ⟨hcode, hbody⟩ := chunked_client hheap hf hinfos hok hfinal hhs hchunked hlen hcs hlast hend
      hw hb hsilent
    rw [hbody]
    exact ⟨hcode, rfl, .inr ⟨rfl, hrest⟩⟩

/-- One exchange: the reply is read as it was sent. -/
theorem exchange_step {heap : Nat → Bool} (hheap : ∀ k, heap k = true) {N : Net}
    (hnet : ∀ k, N.connect k = true) {h : HttpClient} (hs : Settled h) {e : Exchange}
    (he : (e.begins = true → e.stops = true) ∧ Reply e.reply e.code e.body) :
    Settled (exchange N heap h e).1 ∧ (exchange N heap h e).2 = ((e.code : Int), some e.body) := by
  have hready : Settled (if e.begins then (if e.stops then h.stop else h).beginRequest
      else if e.stops then h.stop else h) := by
    cases hb : e.begins with
    | true =>
      rw [he.1 hb]
      exact .inl (clean_begin (clean_stop h))
    | false =>
      cases e.stops with
      | true => exact .inl (clean_stop h)
      | false => exact hs
  obtain ⟨hf, hlimit, hrx⟩ := perform_settled hnet hready e.request e.calls
  unfold exchange
  simp only
  generalize perform N e.request e.calls _ = h' at hf hlimit hrx
  have hf' : Fresh { h' with rx := h'.rx ++ e.reply } :=
    ⟨hf.sent, hf.length, hf.consumed, hf.lengthPtr, hf.chunkedPtr, hf.chunked, hf.limit⟩
  have hreply : Reply ({ h' with rx := h'.rx ++ e.reply } : HttpClient).rx e.code e.body := by
    rw [hrx]
    exact he.2
  obtain ⟨hcode, hbody, hleft⟩ := reply_read hheap hf' hlimit hreply
  exact ⟨hleft, Prod.ext hcode hbody⟩

/-- In every run of exchanges on one client, with a connection and with memory, each reply is read as
it was sent, where `beginRequest` is only called on a client that was stopped: the codes and the
bodies of a run are those of the replies, in order. -/
theorem exchanges_read_back {heap : Nat → Bool} (hheap : ∀ k, heap k = true) {N : Net}
    (hnet : ∀ k, N.connect k = true) {h : HttpClient} (hs : Settled h) {es : List Exchange}
    (hes : ∀ e ∈ es, (e.begins = true → e.stops = true) ∧ Reply e.reply e.code e.body) :
    (Mealy.run (exchange N heap) es h).2 = es.map fun e => ((e.code : Int), some e.body) :=
  (@Mealy.run_map _ _ _ (exchange N heap) Settled
    (fun e => (e.begins = true → e.stops = true) ∧ Reply e.reply e.code e.body)
    (fun e => ((e.code : Int), some e.body)) (fun _ _ hs he => exchange_step hheap hnet hs he) es hes h
    hs).2

def hiExchange : Exchange :=
  { stops := false, begins := false, request := getRoot, calls := [], reply := hiLine, code := 200
    body := text "hi" }

/-- The client is stopped, and `hello` comes in chunks for a request with a header. -/
def helloExchange : Exchange :=
  { stops := true, begins := true, request := getRoot
    calls := [.sendHeader (text "Accept") (text "*/*")], reply := helloLine, code := 200
    body := text "hello" }

theorem exchanges_read_back_hi :
    (Mealy.run (exchange alwaysNet fun _ => true) [hiExchange, helloExchange, hiExchange]
      { iServerName := none, iServerPort := kHttpPort }).2 =
      [(200, some (text "hi")), (200, some (text "hello")), (200, some (text "hi"))] := by
  have hinfos : ∀ l ∈ [processingLine], l.Ok ∧ informational l.code = true :=
    List.forall_mem_singleton.mpr processingLine_ok
  have hhi : Reply hiLine 200 (text "hi") :=
    .length hinfos okLine_ok (by decide) hiHeaders_ok (by decide) rfl (by decide)
      (carries_ready hiHead 0 _) (carries_ready (marked true (text "hi")) 0 _) rfl
  have hhello : Reply helloLine 200 (text "hello") :=
    .chunks (by simp) okLine_ok (by decide) helloHeaders_ok (by simp) rfl helloChunks_ok
      lastChunk_ok rfl (carries_ready helloHead 0 _) (carries_ready helloBody 0 _)
      (.inr ⟨1000, [], rfl, by decide, by decide⟩) rfl
  refine exchanges_read_back (fun _ => rfl) (fun _ => rfl) (settled_new none kHttpPort) ?_
  intro e he
  simp only [List.mem_cons, List.not_mem_nil, or_false] at he
  rcases he with rfl | rfl | rfl
  · exact ⟨nofun, hhi⟩
  · exact ⟨fun _ => rfl, hhello⟩
  · exact ⟨nofun, hhi⟩

end HttpClient
end Http
end TimerCam

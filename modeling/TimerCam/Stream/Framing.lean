import TimerCam.Lib.Multipart
import TimerCam.Stream.Guard
import Mathlib.Data.List.ReduceOption

/-!
# Stream.Framing

What `/stream` and `/jpg` send, as the other side reads it.

* `streamCalls`     : the calls that write a stream, one part for each frame.
* `streamLoop_spec` : the stream loop makes those of the frames in `captured`.
* `WebServer`       : what the sketch relies on in the web server, which is not in the repository.
* `sent_read_back`  : over any sequence of requests, a stream is read back frame by frame, and a
  snapshot gets one response.
-/

namespace TimerCam
namespace Stream

open Octets

def written (out : List Out) : Bytes :=
  out.flatMap fun
    | .client b => b
    | _ => []

def accepted (got : Option Bytes) : Bool := got.any (256 ≤ ·.length)

/-- The frames captured from call `k` of the driver on, at most `stays` of them, up to the first
capture that fails or is too short. -/
def captured (D : Driver) (k stays : Nat) : List Bytes :=
  (((List.range stays).map fun i => D (k + i)).takeWhile accepted).reduceOption

theorem captured_succ (D : Driver) (k stays : Nat) :
    captured D k (stays + 1) =
      if accepted (D k) then (D k).toList ++ captured D (k + 1) stays else [] := by
  have hrange : (List.range (stays + 1)).map (fun i => D (k + i)) =
      D k :: (List.range stays).map fun i => D (k + 1 + i) := by
    rw [List.range_succ_eq_map, List.map_cons, List.map_map, Nat.add_zero]
    simp only [List.cons.injEq, true_and]
    refine List.map_congr_left fun i _ => ?_
    simp only [Function.comp_apply]
    congr 1
    omega
  unfold captured
  rw [hrange]
  cases hk : D k with
  | none => simp [accepted]
  | some b =>
    cases ha : accepted (some b) with
    | true => simp [ha, List.reduceOption_cons_of_some]
    | false => simp [ha]

/-! ## The stream -/

def imageType : Bytes := text "Content-Type: image/jpeg"

def streamHeaders : List Bytes :=
  [text "HTTP/1.1 200 OK", text "Content-Type: multipart/x-mixed-replace;boundary=frame",
    text "Access-Control-Allow-Origin: *", text "Connection: close"]

/-- What each call on the connection writes before the frames. -/
def headCalls : List Bytes :=
  [text "HTTP/1.1 200 OK" ++ crlf,
    text "Content-Type: multipart/x-mixed-replace;boundary=",
    boundary ++ crlf,
    text "Access-Control-Allow-Origin: *" ++ crlf,
    text "Connection: close" ++ crlf,
    crlf]

/-- What each call writes for one frame. -/
def partCalls (body : Bytes) : List Bytes :=
  [text "--", boundary ++ crlf, imageType ++ crlf, Multipart.contentLengthName,
    decimal body.length ++ crlf, crlf, body, crlf]

/-- The calls that write the stream of these frames. -/
def streamCalls (frames : List Bytes) : List Bytes := headCalls ++ frames.flatMap partCalls

def streamText (frames : List Bytes) : Bytes := (streamCalls frames).flatten

theorem streamHead_eq : streamHead = headCalls.map .client := rfl

theorem streamPart_eq (f : Frame) : streamPart f = (partCalls f.buf).map .client := rfl

theorem written_calls (calls : List Bytes) : written (calls.map .client) = calls.flatten := by
  rw [written, List.flatMap_map, List.flatMap_id']

theorem flatten_headCalls : headCalls.flatten = Multipart.lines streamHeaders ++ crlf := by decide

theorem flatten_partCalls (body : Bytes) :
    (partCalls body).flatten = Multipart.part boundary [imageType] body := by
  simp [partCalls, Multipart.part, Multipart.lines, Multipart.delimiter]

theorem flatten_flatMap_partCalls (frames : List Bytes) : (frames.flatMap partCalls).flatten =
    frames.flatMap (Multipart.part boundary [imageType]) := by
  induction frames with
  | nil => rfl
  | cons body frames ih =>
    rw [List.flatMap_cons, List.flatMap_cons, List.flatten_append, flatten_partCalls, ih]

/-- A reader that goes by the lengths finds the frames. -/
theorem streamText_readBack (frames : List Bytes) :
    ∃ rest, Multipart.headerBlock? (streamText frames) = some (streamHeaders, rest) ∧
      Multipart.stream? boundary rest = some frames := by
  refine ⟨frames.flatMap (Multipart.part boundary [imageType]), ?_, ?_⟩
  · rw [streamText, streamCalls, List.flatten_append, flatten_headCalls, flatten_flatMap_partCalls]
    exact Multipart.headerBlock?_lines (by decide) _
  · exact Multipart.stream?_flatMap (by decide) (by decide) _

theorem streamLoop_spec (D : Driver) (stays : Nat) (c : Camera) :
    (streamLoop D stays c).out = ((captured D c.grabs stays).flatMap partCalls).map .client ∧
      (streamLoop D stays c).cam.grabs =
        c.grabs + min stays ((captured D c.grabs stays).length + 1) := by
  induction stays generalizing c with
  | zero => exact ⟨rfl, by simp [streamLoop]⟩
  | succ stays ih =>
    rw [captured_succ, streamLoop]
    simp only [Camera.get_fb]
    cases hk : D c.grabs with
    | none => simp [accepted]
    | some b =>
      by_cases hb : b.length < 256
      · have ha : accepted (some b) = false := by simp [accepted, hb]
        simp [ha, hb, Frame.len]
      · have ha : accepted (some b) = true := by simpa [accepted] using hb
        obtain ⟨h₁, h₂⟩ := ih (((((c.get D).read (some ⟨c.grabs, b⟩)).read
          (some ⟨c.grabs, b⟩)).read (some ⟨c.grabs, b⟩)).free)
        simp only [Camera.free_grabs, Camera.read_grabs, Camera.get_grabs] at h₁ h₂
        simp only [Option.map_some, Frame.len, hb, if_false, ha, if_true, Option.toList_some,
          List.singleton_append, List.flatMap_cons, List.length_cons, List.map_append]
        refine ⟨?_, ?_⟩
        · rw [streamPart_eq, h₁]
        · rw [h₂]
          omega

/-- The handler makes the calls of the captured frames' stream, if the client is there. -/
theorem handleStream_calls (D : Driver) {r : Request} (h : r.authenticate = true) (c : Camera) :
    (r.client = true →
      (handleStream D r c).out = (streamCalls (captured D c.grabs r.stays)).map .client ∧
      (handleStream D r c).cam.grabs =
        c.grabs + min r.stays ((captured D c.grabs r.stays).length + 1)) ∧
    (r.client = false → (handleStream D r c).out = [] ∧ (handleStream D r c).cam = c) := by
  unfold handleStream
  rw [requireHttpAuth_accepted h]
  obtain ⟨hout, hgrabs⟩ := streamLoop_spec D r.stays c
  refine ⟨fun hc => ?_, fun hc => ?_⟩
  · simp only [hc, if_true, List.nil_append]
    exact ⟨by rw [streamCalls, List.map_append, hout, streamHead_eq], hgrabs⟩
  · simp only [hc, if_true, Bool.false_eq_true, if_false, and_self]

/-- The answer to an authenticated `/stream` request met with the camera `c`: nothing but octets for
the client; a header block and the captured frames, read back by their lengths, if the client is
there, and nothing at all if it is not. -/
def StreamReadBack (D : Driver) (r : Request) (c : Camera) (s : Served) : Prop :=
  (∀ o ∈ s.out, ∃ b, o = .client b) ∧
  (r.client = true →
    (∃ rest, Multipart.headerBlock? (written s.out) = some (streamHeaders, rest) ∧
      Multipart.stream? boundary rest = some (captured D c.grabs r.stays)) ∧
    s.cam.grabs = c.grabs + min r.stays ((captured D c.grabs r.stays).length + 1)) ∧
  (r.client = false → s.out = [] ∧ s.cam = c)

theorem handleStream_readBack (D : Driver) {r : Request} (h : r.authenticate = true) (c : Camera) :
    StreamReadBack D r c (handleStream D r c) := by
  obtain ⟨hthere, hgone⟩ := handleStream_calls D h c
  refine ⟨?_, fun hc => ?_, hgone⟩
  · cases hc : r.client with
    | false => simp [(hgone hc).1]
    | true =>
      rw [(hthere hc).1]
      exact List.forall_mem_map.mpr fun b _ => ⟨b, rfl⟩
  · obtain ⟨hout, hgrabs⟩ := hthere hc
    rw [hout, written_calls]
    exact ⟨streamText_readBack _, hgrabs⟩

/-! ## The snapshot -/

structure Response where
  code : Nat
  contentType : Bytes
  contentLength : Nat
  body : Bytes
deriving DecidableEq

/-- The library's web server while it serves one request: its state when it calls the handler, what
a call does to it, the length set for the next response, and the responses sent. -/
structure WebServer where
  State : Type
  dispatch : State
  call : State → Out → State
  declared : State → Option Nat
  responses : State → List Response

/-- The documented effect of the calls that `handleJpg` makes. -/
structure WebServer.Documented (S : WebServer) : Prop where
  dispatch : S.declared S.dispatch = none ∧ S.responses S.dispatch = []
  setContentLength : ∀ s n, S.declared (S.call s (.setContentLength n)) = some n ∧
    S.responses (S.call s (.setContentLength n)) = S.responses s
  send : ∀ s code contentType content,
    S.responses (S.call s (.send code contentType content)) = S.responses s ++
      [⟨code, contentType, (S.declared s).getD content.length, content⟩]
  sendContent : ∀ s content rs r, S.responses s = rs ++ [r] →
    S.responses (S.call s (.sendContent content)) = rs ++ [{ r with body := r.body ++ content }]

def WebServer.answers (S : WebServer) (out : List Out) : List Response :=
  S.responses (out.foldl S.call S.dispatch)

/-- The answer to an authenticated `/jpg` request met with the camera `c`: one response, which has
the captured frame for its body, and its length, or is an error with a fixed text. -/
def JpgAnswered (S : WebServer) (D : Driver) (c : Camera) (s : Served) : Prop :=
  s.cam.grabs = c.grabs + 1 ∧ ∃ resp, S.answers s.out = [resp] ∧
    resp.contentLength = resp.body.length ∧
    (∀ b, D c.grabs = some b → 256 ≤ b.length → resp.code = 200 ∧ resp.body = b) ∧
    ((∀ b, D c.grabs = some b → b.length < 256) →
      resp.code = 500 ∧ resp.body ∈ [text "Camera capture failed", text "Bad frame buffer"])

theorem WebServer.Documented.answers_send {S : WebServer} (hS : S.Documented) (code : Nat)
    (contentType content : Bytes) :
    S.answers [.send code contentType content] =
      [⟨code, contentType, content.length, content⟩] := by
  simp [answers, hS.send, hS.dispatch]

theorem WebServer.Documented.answers_inTwo {S : WebServer} (hS : S.Documented) (code n : Nat)
    (contentType content : Bytes) :
    S.answers [.setContentLength n, .send code contentType [], .sendContent content] =
      [⟨code, contentType, n, content⟩] := by
  have hsend := hS.send (S.call S.dispatch (.setContentLength n)) code contentType []
  rw [(hS.setContentLength S.dispatch n).1, (hS.setContentLength S.dispatch n).2,
    hS.dispatch.2] at hsend
  exact hS.sendContent _ content [] _ hsend

theorem handleJpg_answered {S : WebServer} (hS : S.Documented) (D : Driver) {r : Request}
    (h : r.authenticate = true) (c : Camera) : JpgAnswered S D c (handleJpg D r c) := by
  unfold handleJpg JpgAnswered
  rw [requireHttpAuth_accepted h]
  simp only [if_true, List.nil_append, Camera.get_fb]
  cases hk : D c.grabs with
  | none =>
    refine ⟨rfl, _, hS.answers_send _ _ _, rfl, by simp, fun _ => ⟨rfl, by simp⟩⟩
  | some b =>
    by_cases hb : b.length < 256
    · simp only [Option.map_some, Frame.len, hb, if_true]
      refine ⟨by simp, _, hS.answers_send _ _ _, rfl, ?_, fun _ => ⟨rfl, by simp⟩⟩
      intro b' hb' hlen
      cases hb'
      omega
    · simp only [Option.map_some, Frame.len, hb, if_false]
      refine ⟨by simp, _, hS.answers_inTwo _ _ _ _, rfl, ?_, ?_⟩
      · intro b' hb' _
        cases hb'
        exact ⟨rfl, rfl⟩
      · intro hshort
        exact absurd (hshort b rfl) hb

/-! ## Over runs -/

/-- Every authenticated `/stream` and `/jpg` request of a sequence is answered as the camera it
meets commands. -/
theorem sent_read_back {S : WebServer} (hS : S.Documented) (D : Driver) (rs : List Request)
    (c : Camera) :
    ∀ pre r post, rs = pre ++ r :: post → r.authenticate = true →
      ∃ s : Served, (serve D rs c).2[pre.length]? = some s.out ∧
        (serve D (pre ++ [r]) c).1 = s.cam ∧
        (r.route = .stream → StreamReadBack D r (serve D pre c).1 s) ∧
        (r.route = .jpg → JpgAnswered S D (serve D pre c).1 s) := by
  rintro pre r post rfl h
  refine ⟨handle D r (serve D pre c).1, Mealy.run_getElem? _ pre r post c, ?_, ?_, ?_⟩
  · rw [serve_append, serve_singleton]
  · intro hr
    rw [handle, hr]
    exact handleStream_readBack D h _
  · intro hr
    rw [handle, hr]
    exact handleJpg_answered hS D h _

/-- A web server that keeps what it was told. -/
def plainServer : WebServer where
  State := Option Nat × List Response
  dispatch := (none, [])
  call s
    | .setContentLength n => (some n, s.2)
    | .send code contentType content =>
      (none, s.2 ++ [⟨code, contentType, s.1.getD content.length, content⟩])
    | .sendContent content =>
      (s.1, s.2.dropLast ++ s.2.getLast?.toList.map fun r => { r with body := r.body ++ content })
    | .requestAuthentication _ msg =>
      (none, s.2 ++ [⟨401, text "text/html", msg.length, msg⟩])
    | .client _ => s
  declared := (·.1)
  responses := (·.2)

theorem plainServer_documented : plainServer.Documented where
  dispatch := ⟨rfl, rfl⟩
  setContentLength _ _ := ⟨rfl, rfl⟩
  send _ _ _ _ := rfl
  sendContent s content rs r h := by
    simp only [plainServer] at h ⊢
    rw [h]
    simp

/-- Every frame is good but the third. -/
def thirdFails : Driver := fun k => if k = 2 then none else some (List.replicate 256 0)

/-- A stream, and then a snapshot. -/
def twoRequests : List Request := [⟨.stream, [], true, true, 4⟩, ⟨.jpg, [], true, true, 0⟩]

theorem sent_read_back_two :
    captured thirdFails 0 4 = [List.replicate 256 0, List.replicate 256 0] ∧
    (∃ s : Served, (serve thirdFails twoRequests {}).2[0]? = some s.out ∧
      (serve thirdFails [⟨.stream, [], true, true, 4⟩] {}).1 = s.cam ∧
      (Route.stream = .stream → StreamReadBack thirdFails ⟨.stream, [], true, true, 4⟩ {} s) ∧
      (Route.stream = .jpg → JpgAnswered plainServer thirdFails {} s)) ∧
    ∃ s : Served, (serve thirdFails twoRequests {}).2[1]? = some s.out ∧
      (serve thirdFails twoRequests {}).1 = s.cam ∧
      (Route.jpg = .stream → StreamReadBack thirdFails ⟨.jpg, [], true, true, 0⟩
        (serve thirdFails [⟨.stream, [], true, true, 4⟩] {}).1 s) ∧
      (Route.jpg = .jpg → JpgAnswered plainServer thirdFails
        (serve thirdFails [⟨.stream, [], true, true, 4⟩] {}).1 s) :=
  ⟨by decide +kernel,
    sent_read_back plainServer_documented thirdFails twoRequests {} []
      ⟨.stream, [], true, true, 4⟩ [⟨.jpg, [], true, true, 0⟩] rfl rfl,
    sent_read_back plainServer_documented thirdFails twoRequests {} [⟨.stream, [], true, true, 4⟩]
      ⟨.jpg, [], true, true, 0⟩ [] rfl rfl⟩

def oneFrame : Driver := fun k => if k = 0 then some (List.replicate 256 0) else none

/-- A client that is gone before the handler looks gets no header block. -/
theorem no_header_without_client :
    Multipart.headerBlock? (written (handle oneFrame ⟨.stream, [], true, false, 2⟩ {}).out) = none :=
  rfl

end Stream
end TimerCam

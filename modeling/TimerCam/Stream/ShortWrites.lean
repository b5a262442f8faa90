import TimerCam.Lib.Socket
import TimerCam.Stream.Framing

/-!
# Stream.ShortWrites

What a client has received while `/stream` is served over a socket that may take only a part of a
`print`, `println` or `write`. The handler does not look at what these return, so its calls are the
same in any case.

* `streamed_prefix_iff` : the client has a prefix of the stream at every moment exactly when what the
  socket takes after a call cut short repeats what the client lacks.
* `torn_stream`         : a body cut short by one octet.
-/

namespace TimerCam
namespace Stream

open Octets

/-- The octets of the calls on the client's connection, call by call. -/
def clientCalls (out : List Out) : List Bytes :=
  out.filterMap fun
    | .client b => some b
    | _ => none

theorem clientCalls_calls (calls : List Bytes) : clientCalls (calls.map .client) = calls := by
  rw [clientCalls, List.filterMap_map]
  exact List.filterMap_some

/-- The handler's calls on the connection do not depend on what the socket takes: they are those of
the captured frames' stream for a client that is let in and there, and none for any other. -/
theorem clientCalls_handleStream (D : Driver) (r : Request) (c : Camera) :
    clientCalls (handleStream D r c).out =
      if r.authenticate ∧ r.client then streamCalls (captured D c.grabs r.stays) else [] := by
  cases ha : r.authenticate with
  | false =>
    simp only [Bool.false_eq_true, false_and, if_false]
    unfold handleStream
    rw [requireHttpAuth_refused ha]
    rfl
  | true =>
    obtain ⟨hthere, hgone⟩ := handleStream_calls D ha c
    cases hc : r.client with
    | false =>
      simp only [Bool.false_eq_true, and_false, if_false]
      rw [(hgone hc).1]
      rfl
    | true =>
      simp only [and_self, if_true]
      rw [(hthere hc).1, clientCalls_calls]

/-- Whatever each call on the connection takes, what a client has received is at every moment a
prefix of the stream of the captured frames, which is well formed, exactly when the client is sent
nothing or each call of that stream that comes after one cut short goes on where the client's octets
end. -/
theorem streamed_prefix_iff (D : Driver) (r : Request) (c : Camera) (accepts : Nat → Nat) :
    (∃ rest, Multipart.headerBlock? (streamText (captured D c.grabs r.stays)) =
        some (streamHeaders, rest) ∧
      Multipart.stream? boundary rest = some (captured D c.grabs r.stays)) ∧
      ((∀ m, Socket.received accepts ((clientCalls (handleStream D r c).out).take m) <+:
          streamText (captured D c.grabs r.stays)) ↔
        (r.authenticate = true → r.client = true →
          Socket.Repeats accepts (streamCalls (captured D c.grabs r.stays)))) := by
  refine ⟨streamText_readBack _, ?_⟩
  rw [clientCalls_handleStream]
  by_cases hthere : r.authenticate = true ∧ r.client = true
  · rw [if_pos hthere, streamText, Socket.repeats_iff]
    exact ⟨fun h _ _ => h, fun h => h hthere.1 hthere.2⟩
  · rw [if_neg hthere]
    refine ⟨fun _ ha hc => absurd ⟨ha, hc⟩ hthere, fun _ m => ?_⟩
    rw [List.take_nil]
    exact List.nil_prefix

/-! ## A torn stream -/

/-- The call that writes the first frame takes all but one of its 256 octets. -/
def oneShort (k : Nat) : Nat := if k = 12 then 255 else 256

def tornRequest : Request := ⟨.stream, [], true, true, 2⟩

/-- What the client has received in the end. -/
def torn : Bytes :=
  Socket.received oneShort (clientCalls (handleStream oneFrame tornRequest {}).out)

theorem torn_eq : torn = Multipart.lines streamHeaders ++ crlf ++
    (Multipart.delimiter boundary ++ crlf ++
      (Multipart.lines ([imageType] ++ [Multipart.contentLengthName ++ decimal 256]) ++ crlf ++
        (List.replicate 255 0 ++ crlf))) := by
  decide +kernel

/-- A stream that cannot be read past its first part is no stream. -/
theorem stream?_none {s : Bytes} (hne : s ≠ []) (h : Multipart.part? boundary s = none) :
    Multipart.stream? boundary s = none := by
  unfold Multipart.stream?
  cases hs : s.length with
  | zero => exact absurd (List.length_eq_zero_iff.mp hs) hne
  | succ n => rw [Multipart.parts?, if_neg hne, h]

/-- With one octet of the body missing, the first of the CRLF behind it ends the body. -/
theorem part?_torn {body : Bytes} (hlen : body.length = 255) (more : Bytes) :
    Multipart.part? boundary (Multipart.delimiter boundary ++ crlf ++
      (Multipart.lines ([imageType] ++ [Multipart.contentLengthName ++ decimal 256]) ++ crlf ++
        (body ++ (crlf ++ more)))) = none := by
  rw [Multipart.part?_header (by decide) (by decide), if_neg]
  rintro ⟨-, hcrlf⟩
  have hdrop : (body ++ (crlf ++ more)).drop 256 = 10 :: more := by
    rw [show 256 = body.length + 1 by omega, ← List.drop_drop, List.drop_left]
    rfl
  rw [hdrop] at hcrlf
  simp [crlf] at hcrlf

/-- Nothing that can still come makes a stream of the captured frame of what the client has. -/
theorem torn_stream :
    captured oneFrame 0 2 = [List.replicate 256 0] ∧
      ¬ ∃ W rest, torn <+: W ∧ Multipart.headerBlock? W = some (streamHeaders, rest) ∧
        Multipart.stream? boundary rest = some (captured oneFrame 0 2) := by
  refine ⟨by decide +kernel, ?_⟩
  rintro ⟨W, rest, ⟨more, rfl⟩, hhead, hstream⟩
  have hbody : (List.replicate 255 (0 : UInt8)).length = 255 := List.length_replicate
  rw [torn_eq] at hhead
  generalize List.replicate 255 (0 : UInt8) = body at hhead hbody
  rw [List.append_assoc (_ ++ crlf), Multipart.headerBlock?_lines (by decide),
    Option.some.injEq, Prod.mk.injEq] at hhead
  obtain ⟨-, rfl⟩ := hhead
  simp only [List.append_assoc] at hstream
  have hpart := part?_torn hbody more
  simp only [List.append_assoc] at hpart
  rw [stream?_none (by simp [crlf]) hpart] at hstream
  cases hstream

end Stream
end TimerCam

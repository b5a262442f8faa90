import TimerCam.Http.Body
import TimerCam.Http.Encoders
import TimerCam.Lib.Multipart

/-!
# Http.Request

What is sent, whatever the calls that make it up.

* `calls_tx`          : the header block is ended once, by the first call that needs it ended.
* `request_read_back` : the lines and the body that were given are read back.
-/

namespace TimerCam
namespace Http
namespace HttpClient

open Octets Wire

/-! ## Calls -/

/-- What the program may call once the request has been started. -/
inductive Call where
  | sendHeader (aHeaderName aHeaderValue : Bytes)
  | sendHeaderInt (aHeaderName : Bytes) (aHeaderValue : Int)
  | sendHeaderLine (aHeader : Bytes)
  | sendBasicAuth (output : Vector UInt8 5) (aUser aPassword : Bytes)
  | beginBody
  | endRequest
  | write (aBuffer : Bytes)

def Call.run (h : HttpClient) : Call → HttpClient
  | .sendHeader n v => h.sendHeader n v
  | .sendHeaderInt n v => h.sendHeaderInt n v
  | .sendHeaderLine l => h.sendHeaderLine l
  | .sendBasicAuth o u p => h.sendBasicAuth o u p
  | .beginBody => h.beginBody
  | .endRequest => h.endRequest
  | .write b => h.write b

/-- A call that needs the header block to be ended. -/
def Call.ends : Call → Bool
  | .beginBody | .endRequest | .write _ => true
  | _ => false

def headerText (n v : Bytes) : Bytes := n ++ text ": " ++ v

/-- The line that a call sends. -/
def Call.line? : Call → Option Bytes
  | .sendHeader n v => some (headerText n v)
  | .sendHeaderInt n v => some (headerText n (ofInt v))
  | .sendHeaderLine l => some l
  | .sendBasicAuth _ u p => some (text "Authorization: Basic " ++ Base64.encode (credentials u p))
  | .beginBody | .endRequest | .write _ => none

/-- What a call sends, the end of the header block apart. -/
def Call.text : Call → Bytes
  | .write b => b
  | c => Multipart.lines c.line?.toList

def runCalls (h : HttpClient) (cs : List Call) : HttpClient := cs.foldl Call.run h

theorem print_nil (h : HttpClient) : h.print [] = h := by
  rw [print, List.append_nil]

theorem print_print (s t : Bytes) (h : HttpClient) : (h.print s).print t = h.print (s ++ t) := by
  simp only [print, List.append_assoc]

theorem lines_append (a b : List Bytes) :
    Multipart.lines (a ++ b) = Multipart.lines a ++ Multipart.lines b := List.flatMap_append

theorem lines_singleton (l : Bytes) : Multipart.lines [l] = l ++ crlf := List.flatMap_singleton _ l

theorem sendHeader_eq (n v : Bytes) (h : HttpClient) :
    h.sendHeader n v = h.print (Multipart.lines [headerText n v]) := by
  rw [lines_singleton]
  simp [sendHeader, println, print, headerText]

/-- A call in the header block or behind it adds its text, and first the end of the block if it needs
that. -/
theorem call_run (h : HttpClient) (c : Call) : c.run h =
    if c.ends && h.iState.beforeSent then h.finishHeaders.print c.text else h.print c.text := by
  cases c with
  | sendHeader n v => exact sendHeader_eq n v h
  | sendHeaderInt n v => exact sendHeader_eq n (ofInt v) h
  | sendHeaderLine l => exact congrArg (fun s => h.print s) (lines_singleton l).symm
  | sendBasicAuth o u p =>
    refine (sendBasicAuth_eq o u p h).trans ?_
    exact congrArg (fun s => h.print s) (lines_singleton _).symm
  | beginBody =>
    simp only [Call.run, Call.ends, Call.text, Call.line?, Option.toList_none, Multipart.lines,
      List.flatMap_nil, Bool.true_and, print_nil]
    rfl
  | endRequest =>
    simp only [Call.run, Call.ends, Call.text, Call.line?, Option.toList_none, Multipart.lines,
      List.flatMap_nil, Bool.true_and, print_nil]
    rfl
  | write b =>
    simp only [Call.run, Call.ends, Call.text, Bool.true_and, write, beginBody]
    split
    · rfl
    · rfl

/-- Once the block has been ended every call adds its text and no more. -/
theorem calls_sent {h : HttpClient} (hs : h.iState.beforeSent = false) (cs : List Call) :
    h.runCalls cs = h.print (cs.flatMap Call.text) := by
  induction cs generalizing h with
  | nil =>
    rw [List.flatMap_nil, print_nil]
    rfl
  | cons c cs ih =>
    have hrun : c.run h = h.print c.text := by
      rw [call_run, hs, Bool.and_false]
      rfl
    have hcons : h.runCalls (c :: cs) = (c.run h).runCalls cs := rfl
    rw [hcons, hrun, ih (h := h.print c.text) hs, List.flatMap_cons]
    simp [print]

/-- The lines of the calls before the first one that ends the block, and what the others send. -/
def headerLines (cs : List Call) : List Bytes := (cs.takeWhile (!·.ends)).filterMap Call.line?

def bodyText (cs : List Call) : Bytes := (cs.dropWhile (!·.ends)).flatMap Call.text

/-- What the calls send: the header block is ended once, by the first call that needs it ended. -/
theorem calls_tx {h : HttpClient} (hs : h.iState = .eRequestStarted) (cs : List Call) :
    (h.runCalls cs).tx = h.tx ++ (Multipart.lines (headerLines cs) ++
      if cs.any Call.ends then crlf ++ bodyText cs else []) := by
  induction cs generalizing h with
  | nil => exact (List.append_nil _).symm
  | cons c cs ih =>
    have hcons : h.runCalls (c :: cs) = (c.run h).runCalls cs := rfl
    rw [hcons, List.any_cons]
    cases hc : c.ends with
    | false =>
      have hrun : c.run h = h.print c.text := by
        rw [call_run, hc]
        rfl
      have htext : headerLines (c :: cs) = c.line?.toList ++ headerLines cs := by
        unfold headerLines
        rw [List.takeWhile_cons_of_pos (by rw [hc]; rfl)]
        cases hl : c.line? with
        | none => rw [List.filterMap_cons_none hl]; rfl
        | some l => rw [List.filterMap_cons_some hl]; rfl
      have hline : c.text = Multipart.lines c.line?.toList := by
        cases c with
        | write b => cases hc
        | _ => rfl
      have hbody : bodyText (c :: cs) = bodyText cs := by
        unfold bodyText
        rw [List.dropWhile_cons_of_pos (by rw [hc]; rfl)]
      rw [hrun, ih (h := h.print c.text) hs, htext, hline, hbody, lines_append, Bool.false_or]
      simp only [print, List.append_assoc]
    | true =>
      have hrun : c.run h = h.finishHeaders.print c.text := by
        rw [call_run, hc, hs]
        rfl
      have hsent : (h.finishHeaders.print c.text).iState.beforeSent = false := rfl
      have htext : headerLines (c :: cs) = [] := by
        unfold headerLines
        rw [List.takeWhile_cons_of_neg (by rw [hc]; exact Bool.false_ne_true)]
        rfl
      have hbody : bodyText (c :: cs) = c.text ++ cs.flatMap Call.text := by
        unfold bodyText
        rw [List.dropWhile_cons_of_neg (by rw [hc]; exact Bool.false_ne_true), List.flatMap_cons]
      rw [hrun, calls_sent hsent, htext, hbody, Bool.true_or]
      simp [print, finishHeaders, println, Multipart.lines]

/-! ## Requests -/

section Lines

variable (h : HttpClient) (aURLPath aHttpMethod : Bytes) (aContentType : Option Bytes)
  (aContentLength : Int)

def hostLines : List Bytes :=
  match h.iServerName with
  | none => []
  | some name =>
    [text "Host: " ++ name ++
      if h.iServerPort ≠ kHttpPort ∧ h.iServerPort ≠ kHttpsPort then
        text ":" ++ decimal h.iServerPort
      else []]

/-- The lines that `startRequest` sends. -/
def requestLines : List Bytes :=
  [aHttpMethod ++ text " " ++ aURLPath ++ text " HTTP/1.1"] ++
    (if h.iSendDefaultRequestHeaders then
      h.hostLines ++ [headerText (text "User-Agent") kUserAgent] else []) ++
    (if h.iConnectionClose then [headerText (text "Connection") (text "close")] else []) ++
    (aContentType.toList.map (headerText (text "Content-Type"))) ++
    (if aContentLength > 0 then [headerText (text "Content-Length") (ofInt aContentLength)] else [])

theorem sendHost_eq : h.sendHost = h.print (Multipart.lines h.hostLines) := by
  unfold sendHost hostLines
  cases h.iServerName with
  | none => exact (print_nil h).symm
  | some name =>
    simp only [Multipart.lines, List.flatMap_singleton, println]
    by_cases hport : h.iServerPort ≠ kHttpPort ∧ h.iServerPort ≠ kHttpsPort
    · rw [if_pos hport]
      refine (congrArg (print ([] ++ crlf)) (if_pos hport)).trans ?_
      simp only [print_print, List.append_assoc, List.nil_append]
      rfl
    · rw [if_neg hport]
      refine (congrArg (print ([] ++ crlf)) (if_neg hport)).trans ?_
      simp only [print_print, List.append_assoc, List.nil_append, List.append_nil]

/-- The host is the same after anything that was sent. -/
theorem hostLines_print (s : Bytes) : (h.print s).hostLines = h.hostLines := rfl

/-- A line more, if it is there. -/
theorem print_if {p : Prop} [Decidable p] (s : Bytes) (ls : List Bytes) {h' : HttpClient}
    (he : p → h' = (h.print s).print (Multipart.lines ls)) :
    (if p then h' else h.print s) = h.print (s ++ Multipart.lines (if p then ls else [])) := by
  by_cases hp : p
  · rw [if_pos hp, if_pos hp, he hp, print_print]
  · rw [if_neg hp, if_neg hp, Multipart.lines, List.flatMap_nil, List.append_nil]

/-- Where the lines of a request have been sent. -/
def started (ls : List Bytes) (h : HttpClient) : HttpClient :=
  { h.print (Multipart.lines ls) with iState := .eRequestStarted }

theorem started_print (a b : List Bytes) :
    (h.started a).print (Multipart.lines b) = h.started (a ++ b) := by
  rw [started, started, lines_append, ← print_print]
  rfl

theorem sendInitialHeaders_eq : h.sendInitialHeaders aURLPath aHttpMethod =
    h.started (h.requestLines aURLPath aHttpMethod none 0) := by
  have hfirst : (((h.print aHttpMethod).print (text " ")).print aURLPath).println (text " HTTP/1.1") =
      h.print (Multipart.lines [aHttpMethod ++ text " " ++ aURLPath ++ text " HTTP/1.1"]) := by
    rw [lines_singleton, println]
    simp only [print_print, List.append_assoc]
  simp only [sendInitialHeaders, hfirst]
  rw [print_if h _ (h.hostLines ++ [headerText (text "User-Agent") kUserAgent]) fun _ => by
    rw [sendHost_eq, sendHeader_eq, hostLines_print, print_print, lines_append]]
  rw [print_if h _ [headerText (text "Connection") (text "close")] fun _ => by rw [sendHeader_eq]]
  have hlines : Multipart.lines (h.requestLines aURLPath aHttpMethod none 0) =
      Multipart.lines [aHttpMethod ++ text " " ++ aURLPath ++ text " HTTP/1.1"] ++
        Multipart.lines (if h.iSendDefaultRequestHeaders then
          h.hostLines ++ [headerText (text "User-Agent") kUserAgent] else []) ++
        Multipart.lines (if h.iConnectionClose then
          [headerText (text "Connection") (text "close")] else []) := by
    have hzero : ¬ (0 : Int) > 0 := by omega
    rw [requestLines, if_neg hzero, lines_append, lines_append, lines_append, lines_append]
    simp [Multipart.lines]
  rw [started, hlines]
  rfl

theorem requestLines_eq : h.requestLines aURLPath aHttpMethod aContentType aContentLength =
    h.requestLines aURLPath aHttpMethod none 0 ++
      (aContentType.toList.map (headerText (text "Content-Type")) ++
        (if aContentLength > 0 then [headerText (text "Content-Length") (ofInt aContentLength)]
          else [])) := by
  have hzero : ¬ (0 : Int) > 0 := by omega
  simp only [requestLines, if_neg hzero, Option.toList_none, List.map_nil, List.append_nil,
    List.append_assoc]

end Lines

theorem sendBodyHeaders_eq (h : HttpClient) (aContentType : Option Bytes) (aContentLength : Int) :
    h.sendBodyHeaders aContentType aContentLength =
      h.print (Multipart.lines (aContentType.toList.map (headerText (text "Content-Type")) ++
        (if aContentLength > 0 then [headerText (text "Content-Length") (ofInt aContentLength)]
          else []))) := by
  have hint : ∀ h : HttpClient, h.sendHeaderInt (text "Content-Length") aContentLength =
      h.print (Multipart.lines [headerText (text "Content-Length") (ofInt aContentLength)]) := by
    intro h
    exact sendHeader_eq _ _ h
  have hnone : h.print (Multipart.lines []) = h := print_nil h
  unfold sendBodyHeaders
  cases aContentType with
  | none =>
    by_cases hpos : aContentLength > 0
    · simp only [if_pos hpos, hint, Option.toList_none, List.map_nil, List.nil_append]
    · simp only [if_neg hpos, Option.toList_none, List.map_nil, List.nil_append, hnone]
  | some t =>
    have ht : h.sendHeader (text "Content-Type") t =
        h.print (Multipart.lines [headerText (text "Content-Type") t]) := sendHeader_eq _ _ h
    by_cases hpos : aContentLength > 0
    · simp only [if_pos hpos, hint, ht, print_print, Option.toList_some, List.map_cons, List.map_nil,
        lines_append]
    · simp only [if_neg hpos, ht, Option.toList_some, List.map_cons, List.map_nil, List.append_nil]

/-- The arguments of `startRequest`. -/
structure Request where
  aURLPath : Bytes
  aHttpMethod : Bytes
  aContentType : Option Bytes := none
  aContentLength : Int := -1
  aBody : Option Bytes := none

def Request.start (r : Request) (N : Net) (h : HttpClient) : Int × HttpClient :=
  h.startRequest N r.aURLPath r.aHttpMethod r.aContentType r.aContentLength r.aBody

def Request.lines (r : Request) (h : HttpClient) : List Bytes :=
  h.requestLines r.aURLPath r.aHttpMethod r.aContentType r.aContentLength

/-- `hasBody`, and what of the body is sent. -/
def Request.body? (r : Request) : Option Bytes :=
  if r.aContentLength > 0 then r.aBody.map (·.take r.aContentLength.toNat) else none

/-- Whether `startRequest` ends the header block itself. -/
def Request.endsBlock (r : Request) (h : HttpClient) : Bool :=
  h.iState = .eIdle || r.body?.isSome

theorem headers_eq (r : Request) (h : HttpClient) :
    (h.sendInitialHeaders r.aURLPath r.aHttpMethod).sendBodyHeaders r.aContentType r.aContentLength =
      h.started (r.lines h) := by
  rw [sendInitialHeaders_eq, sendBodyHeaders_eq, started_print, ← requestLines_eq]
  rfl

/-- A request adds its lines, and the end of the block and the body where it has one or where it was
not begun by `beginRequest`. -/
theorem start_eq {N : Net} {h : HttpClient} (hs : h.iState.beforeSent = true)
    (hnet : (h.connects N).1 = true) (r : Request) : r.start N h = (HTTP_SUCCESS,
      if r.endsBlock h then
        ((h.connects N).2.started (r.lines h)).finishHeaders.print (r.body?.getD [])
      else (h.connects N).2.started (r.lines h)) := by
  have hreset : ¬ (h.iState = .eReadingBody ∨ h.iState = .eReadingChunkLength ∨
      h.iState = .eReadingBodyChunk) := by
    rintro (he | he | he)
    · rw [he] at hs
      cases hs
    · rw [he] at hs
      cases hs
    · rw [he] at hs
      cases hs
  have hgo : ¬ (h.iState ≠ .eIdle ∧ h.iState ≠ .eRequestStarted) := by
    rintro ⟨h₁, h₂⟩
    cases he : h.iState <;> simp_all [HttpState.beforeSent]
  have hlines : r.lines (h.connects N).2 = r.lines h := by
    unfold connects
    split
    · rfl
    · split
      · rfl
      · rfl
  rw [Request.start, startRequest]
  simp only [if_neg hreset, if_neg hgo, if_pos hnet, headers_eq, hlines]
  refine Prod.ext rfl ?_
  have hbody : r.body? = (if r.aContentLength > 0 then r.aBody else none).map
      (·.take r.aContentLength.toNat) := by
    unfold Request.body?
    split
    · rfl
    · rfl
  simp only [Request.endsBlock, hbody]
  cases (if r.aContentLength > 0 then r.aBody else none) with
  | none =>
    by_cases hidle : h.iState = .eIdle
    · simp [hidle, print_nil]
    · simp [hidle]
  | some b =>
    simp only [Option.isSome_some, or_true, if_true, Option.map_some, Bool.or_true, Option.getD_some]
    rfl

theorem block?_lines_none {ls : List Bytes} (h : ∀ l ∈ ls, l ≠ [] ∧ 13 ∉ l) (fuel : Nat) :
    Multipart.block? fuel (Multipart.lines ls) = none := by
  induction ls generalizing fuel with
  | nil => cases fuel <;> rfl
  | cons l ls ih =>
    cases fuel with
    | zero => rfl
    | succ fuel =>
      obtain ⟨⟨hne, hcr⟩, hls⟩ := List.forall_mem_cons.mp h
      have hs : Multipart.lines (l :: ls) = l ++ crlf ++ Multipart.lines ls := List.flatMap_cons
      rw [hs, Multipart.block?, Multipart.line?_append hcr]
      simp only
      rw [if_neg hne, ih hls, Option.map_none]

theorem start_state {N : Net} {h : HttpClient} (hs : h.iState.beforeSent = true)
    (hnet : (h.connects N).1 = true) (r : Request) : (r.start N h).2.tx = h.tx ++
      (Multipart.lines (r.lines h) ++ if r.endsBlock h then crlf ++ r.body?.getD [] else []) ∧
    (r.start N h).2.iState =
      if r.endsBlock h then .eRequestSent else .eRequestStarted := by
  have htx : (h.connects N).2.tx = h.tx := by
    unfold connects
    split
    · rfl
    · split
      · rfl
      · rfl
  rw [start_eq hs hnet, ← htx]
  cases hr : r.endsBlock h with
  | false =>
    refine ⟨?_, ?_⟩
    · simp [started, print]
    · simp [started]
  | true =>
    refine ⟨?_, ?_⟩
    · simp [started, print, finishHeaders, println]
    · simp [started, print, finishHeaders]

/-- However a request is made up, by `startRequest` alone or with any calls behind it, it is read as
the lines that were asked for, those of the header calls before the block was ended, and then all that
was written. Before the block was ended there is no request. -/
theorem request_read_back {N : Net} {h : HttpClient} (hs : h.iState.beforeSent = true)
    (hnet : (h.connects N).1 = true) (r : Request) (cs : List Call)
    (hlines : ∀ l ∈ r.lines h ++ headerLines cs, l ≠ [] ∧ 13 ∉ l) :
    (r.start N h).1 = HTTP_SUCCESS ∧
      ∃ sent, ((r.start N h).2.runCalls cs).tx = h.tx ++ sent ∧ Multipart.headerBlock? sent =
        if r.endsBlock h then some (r.lines h, r.body?.getD [] ++ cs.flatMap Call.text)
        else if cs.any Call.ends then some (r.lines h ++ headerLines cs, bodyText cs)
        else none := by
  obtain ⟨htx, hstate⟩ := start_state hs hnet r
  refine ⟨by rw [start_eq hs hnet], ?_⟩
  have hfirst : ∀ l ∈ r.lines h, l ≠ [] ∧ 13 ∉ l := by
    intro l hl
    exact hlines l (List.mem_append_left _ hl)
  cases hr : r.endsBlock h with
  | true =>
    rw [hr, if_pos rfl] at htx hstate
    have hsent : (r.start N h).2.iState.beforeSent = false := by rw [hstate]; rfl
    refine ⟨Multipart.lines (r.lines h) ++ crlf ++ (r.body?.getD [] ++ cs.flatMap Call.text), ?_, ?_⟩
    · rw [calls_sent hsent]
      simp only [print, htx, List.append_assoc]
    · exact Multipart.headerBlock?_lines hfirst _
  | false =>
    rw [hr, if_neg Bool.false_ne_true] at htx hstate
    have hcalls := calls_tx hstate cs
    rw [htx, List.append_nil, List.append_assoc, ← List.append_assoc (Multipart.lines _),
      ← lines_append] at hcalls
    refine ⟨_, hcalls, ?_⟩
    cases he : cs.any Call.ends with
    | true =>
      have := Multipart.headerBlock?_lines hlines (bodyText cs)
      rw [List.append_assoc] at this
      exact this
    | false =>
      rw [if_neg Bool.false_ne_true, List.append_nil]
      exact block?_lines_none hlines _

/-- A request with a header and a body that are sent by calls. -/
def postRoot : Request := { aURLPath := text "/", aHttpMethod := text "POST" }

def postCalls : List Call := [.sendHeaderInt (text "Content-Length") 2, .write (text "hi")]

def begunClient : HttpClient :=
  { iServerName := none, iServerPort := kHttpPort, iState := .eRequestStarted
    iSendDefaultRequestHeaders := false, iConnectionClose := false }

theorem request_read_back_post :
    ∃ sent, ((postRoot.start ⟨fun _ => true, fun _ => true⟩ begunClient).2.runCalls postCalls).tx =
      sent ∧ Multipart.headerBlock? sent =
        some ([text "POST / HTTP/1.1", text "Content-Length: 2"], text "hi") := by
  have hlines : ∀ l ∈ postRoot.lines begunClient ++ headerLines postCalls, l ≠ [] ∧ 13 ∉ l :=
    List.forall_mem_cons.mpr ⟨by decide, List.forall_mem_singleton.mpr (by decide)⟩
  obtain ⟨-, sent, hsent, hread⟩ :=
    request_read_back (h := begunClient) (N := ⟨fun _ => true, fun _ => true⟩) rfl rfl postRoot
      postCalls hlines
  exact ⟨sent, hsent, hread⟩

end HttpClient
end Http
end TimerCam

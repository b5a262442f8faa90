import TimerCam.Lib.Mealy
import TimerCam.Camera

/-!
# Stream.Handlers

The four request handlers of `m5cam_stream_server.ino`. A handler works on the camera and makes
calls on the web server and on the client's connection; the calls it makes, in order, are its
output (`Out`). `delay` and `yield` only let time pass and are left out.

What comes with a request from outside is in `Request`: the answer of `server.authenticate` and
how long the client stays.
-/

namespace TimerCam
namespace Stream

open Octets

def kAuthRealm : Bytes := text "TimerCAM"

inductive Route where
  | root | live | jpg | stream
deriving DecidableEq

/-- `authenticate` is what `server.authenticate(WWW_USER, WWW_PASS)` answers, `client` whether
`server.client()` tests true, `stays` how many calls of `client.connected()` answer true. -/
structure Request where
  route : Route
  hostHeader : Bytes
  authenticate : Bool
  client : Bool
  stays : Nat
deriving DecidableEq

/-- A call on the web server; `client` is one `print`, `println` or `write` on the connection. -/
inductive Out where
  | requestAuthentication (realm msg : Bytes)
  | setContentLength (n : Nat)
  | send (code : Nat) (contentType content : Bytes)
  | sendContent (content : Bytes)
  | client (bytes : Bytes)
deriving DecidableEq

structure Served where
  cam : Camera
  out : List Out

/-! ## Authentication -/

def unauthorizedMsg (host : Bytes) : Bytes :=
  text "<p>401 Unauthorized</p><p>If you do not see a login prompt, open this pattern in the " ++
  text "address bar (replace <code>user</code> and <code>pass</code> with WWW_USER / WWW_PASS " ++
  text "in the sketch):</p><p><code>https://user:pass@" ++ host ++ text "/</code></p>"

/-- `requireHttpAuth`: the answer, and the calls made. -/
def requireHttpAuth (r : Request) : Bool × List Out :=
  if r.authenticate then (true, [])
  else (false, [.requestAuthentication kAuthRealm (unauthorizedMsg r.hostHeader)])

/-! ## Pages -/

def rootHtml : Bytes :=
  text "<!DOCTYPE html><html><head><meta charset=\"utf-8\"><meta name=\"viewport\" " ++
  text "content=\"width=device-width,initial-scale=1\"><title>TimerCAM</title></head><body>" ++
  text "<h1>TimerCAM</h1>" ++
  text "<p>Live preview (refreshed ~3x/s):</p>" ++
  text "<p><img id=\"cam\" src=\"/jpg\" alt=\"frame\" " ++
  text "style=\"max-width:100%%;height:auto;\"></p>" ++
  text "<p><a href=\"/jpg\" target=\"_blank\">Open one JPEG</a> · " ++
  text "<a href=\"/live\">Full MJPEG (uses one connection — close when done)</a></p>" ++
  text "<script>setInterval(function()\x7bvar i=document.getElementById(\"cam\");" ++
  text "if(i)i.src=\"/jpg?t=\"+Date.now();\x7d,320);</script></body></html>"

def liveHtml : Bytes :=
  text "<!DOCTYPE html><html><head><meta charset=\"utf-8\"><meta name=\"viewport\" " ++
  text "content=\"width=device-width,initial-scale=1\"><title>TimerCAM live</title></head><body>" ++
  text "<p><a href=\"/\">Back to main</a></p>" ++
  text "<p><b>MJPEG</b> — this page locks the camera server until you leave it " ++
  text "(single-client WebServer).</p>" ++
  text "<p><img src=\"/stream\" alt=\"stream\" style=\"max-width:100%%;height:auto;\"></p>" ++
  text "</body></html>"

def handleRoot (r : Request) (c : Camera) : Served :=
  let a := requireHttpAuth r
  if a.1 then ⟨c, a.2 ++ [.send 200 (text "text/html") rootHtml]⟩ else ⟨c, a.2⟩

def handleLive (r : Request) (c : Camera) : Served :=
  let a := requireHttpAuth r
  if a.1 then ⟨c, a.2 ++ [.send 200 (text "text/html") liveHtml]⟩ else ⟨c, a.2⟩

/-! ## The stream -/

def boundary : Bytes := text "frame"

def print (s : Bytes) : Out := .client s

def println (s : Bytes) : Out := .client (s ++ crlf)

def streamHead : List Out :=
  [println (text "HTTP/1.1 200 OK"),
    print (text "Content-Type: multipart/x-mixed-replace;boundary="),
    println boundary,
    println (text "Access-Control-Allow-Origin: *"),
    println (text "Connection: close"),
    println []]

def streamPart (f : Frame) : List Out :=
  [print (text "--"),
    println boundary,
    println (text "Content-Type: image/jpeg"),
    print (text "Content-Length: "),
    println (decimal f.len),
    println [],
    .client f.buf,
    println []]

/-- `while (client.connected())`, with `stays` more answers true. -/
def streamLoop (D : Driver) : Nat → Camera → Served
  | 0, c => ⟨c, []⟩
  | stays + 1, c =>
    let c := c.get D
    match c.fb with
    | none => ⟨c, []⟩
    | some f =>
      -- `fb->len < 256`
      let c := c.read (some f)
      if f.len < 256 then ⟨c.free, []⟩
      else
        -- `println(fb->len)`, then `write(fb->buf, fb->len)`
        let c := ((c.read (some f)).read (some f)).free
        let rest := streamLoop D stays c
        ⟨rest.cam, streamPart f ++ rest.out⟩

def handleStream (D : Driver) (r : Request) (c : Camera) : Served :=
  let a := requireHttpAuth r
  if a.1 then
    if r.client then
      let s := streamLoop D r.stays c
      ⟨s.cam, a.2 ++ streamHead ++ s.out⟩
    else ⟨c, a.2⟩
  else ⟨c, a.2⟩

/-! ## The snapshot -/

def handleJpg (D : Driver) (r : Request) (c : Camera) : Served :=
  let a := requireHttpAuth r
  if a.1 then
    let c := c.get D
    match c.fb with
    | none => ⟨c, a.2 ++ [.send 500 (text "text/plain") (text "Camera capture failed")]⟩
    | some f =>
      let c := c.read (some f)
      if f.len < 256 then
        ⟨c.free, a.2 ++ [.send 500 (text "text/plain") (text "Bad frame buffer")]⟩
      else
        let c := ((c.read (some f)).read (some f)).free
        ⟨c, a.2 ++ [.setContentLength f.len, .send 200 (text "image/jpeg") [],
          .sendContent f.buf]⟩
  else ⟨c, a.2⟩

/-! ## Dispatch -/

/-- The handler that `setup` registers for the route. -/
def handle (D : Driver) (r : Request) (c : Camera) : Served :=
  match r.route with
  | .root => handleRoot r c
  | .live => handleLive r c
  | .jpg => handleJpg D r c
  | .stream => handleStream D r c

/-- A sequence of requests: the camera after them, and the output of each. -/
def serve (D : Driver) (rs : List Request) (c : Camera) : Camera × List (List Out) :=
  Mealy.run (fun c r => ((handle D r c).cam, (handle D r c).out)) rs c

theorem serve_singleton (D : Driver) (r : Request) (c : Camera) :
    serve D [r] c = ((handle D r c).cam, [(handle D r c).out]) := rfl

theorem serve_append (D : Driver) (rs rs' : List Request) (c : Camera) :
    serve D (rs ++ rs') c = ((serve D rs' (serve D rs c).1).1,
      (serve D rs c).2 ++ (serve D rs' (serve D rs c).1).2) :=
  Mealy.run_append _ rs rs' c

theorem serve_length (D : Driver) (rs : List Request) (c : Camera) :
    (serve D rs c).2.length = rs.length :=
  Mealy.run_length _ rs c

/-! ## The capture at start-up -/

def testSingleCapture (D : Driver) (c : Camera) : Camera :=
  let r := warmUp (Camera.get D) (·.fb.isSome) Camera.free 3 c
  if r.1 then (r.2.read r.2.fb).free else r.2

end Stream
end TimerCam

import TimerCam.Wifi
import TimerCam.Stream.Handlers
import Mathlib.Logic.Function.Iterate

/-!
# Stream.Sketch

`setup` and `loop` of `m5cam_stream_server.ino`. What the sketch meets outside is in `Env`; its
globals and the trace of what it does are in `World`.

True uptime is read at instants, numbered by `reads.tick`; `millis()` shows it modulo `2 ^ 32`.
A pass of `maintainWiFi` that sees Wi-Fi down has three instants at most: the `millis()` of its
guard, `WiFi.reconnect()`, and the `millis()` of the next deadline (`Call`).
-/

namespace TimerCam
namespace Stream

open Uptime

/-- `wifi k` is read number `k` of `WiFi.status() == WL_CONNECTED`, `uptime k` the true uptime in
ms at instant `k`, `request k` what waits at call `k` of `server.handleClient()`. -/
structure Env where
  wifi : Nat → Bool
  uptime : Nat → Nat
  camera : Driver
  request : Nat → Option Request

/-- A call of `maintainWiFi` that saw Wi-Fi down: the true uptime at the guard `millis() < nextTry`
(`time`), at the statement after it, which is `WiFi.reconnect()` if the guard lets the call pass
(`next`), and at the `millis()` of the new deadline if `WiFi.reconnect()` was called (`stored`). -/
structure Call where
  time : Nat
  next : Nat
  stored : Option Nat
deriving DecidableEq

inductive Ev where
  | on (r : Route)
  | begin
  | handleClient
  | served (r : Request) (out : List Out)
  | maintain (c : Option Call)
deriving DecidableEq

/-- `clients` counts the calls of `server.handleClient()`. -/
structure World where
  nextTry : UInt32 := 0
  routes : List Route := []
  listening : Bool := false
  cam : Camera := {}
  reads : Reads := {}
  clients : Nat := 0
  trace : List Ev := []

def World.emit (w : World) (e : Ev) : World := { w with trace := w.trace ++ [e] }

def World.nextWifi (w : World) : World := { w with reads := w.reads.nextWifi }

def World.nextTick (w : World) : World := { w with reads := w.reads.nextTick }

/-- `server.on(path, HTTP_GET, handler)`. -/
def World.on (w : World) (r : Route) : World :=
  { w with routes := w.routes ++ [r] }.emit (.on r)

def World.begin (w : World) : World := { w with listening := true }.emit .begin

def setup (E : Env) (fuel : Nat) (w : World) : Option World :=
  match connectToWiFi E.wifi E.uptime fuel w.reads with
  | none => none
  | some reads =>
    let w := { w with reads := reads }
    let w := { w with cam := testSingleCapture E.camera w.cam }
    if E.wifi w.reads.wifi then
      some ((((w.nextWifi.on .root).on .live).on .jpg).on .stream).begin
    else some w.nextWifi

/-- `server.handleClient()`: a server that listens runs the handler registered for the request. -/
def handleClient (E : Env) (w : World) : World :=
  let req := E.request w.clients
  let w := { w with clients := w.clients + 1 }.emit .handleClient
  match req with
  | none => w
  | some r =>
    if w.listening ∧ r.route ∈ w.routes then
      let s := handle E.camera r w.cam
      { w with cam := s.cam }.emit (.served r s.out)
    else w

def maintainWiFi (E : Env) (w : World) : World :=
  if E.wifi w.reads.wifi then w.nextWifi.emit (.maintain none)
  else
    let w := w.nextWifi
    let t := E.uptime w.reads.tick
    let w := w.nextTick
    let r := E.uptime w.reads.tick
    if millis t < w.nextTry then w.emit (.maintain (some ⟨t, r, none⟩))
    else
      let w := w.nextTick
      let b := E.uptime w.reads.tick
      { w.nextTick with nextTry := millis b + 5000 }.emit (.maintain (some ⟨t, r, some b⟩))

def loop (E : Env) (w : World) : World :=
  if E.wifi w.reads.wifi then maintainWiFi E (handleClient E w.nextWifi)
  else maintainWiFi E w.nextWifi

/-! ## What a call of `maintainWiFi` does -/

theorem maintainWiFi_up {E : Env} {w : World} (h : E.wifi w.reads.wifi = true) :
    maintainWiFi E w = { w with reads := w.reads.nextWifi,
                                trace := w.trace ++ [.maintain none] } := by
  rw [maintainWiFi, if_pos h]; rfl

theorem maintainWiFi_held {E : Env} {w : World} (h : E.wifi w.reads.wifi = false)
    (ht : millis (E.uptime w.reads.tick) < w.nextTry) :
    maintainWiFi E w =
      { w with reads := w.reads.nextWifi.nextTick,
               trace := w.trace ++ [.maintain (some ⟨E.uptime w.reads.tick,
                 E.uptime (w.reads.tick + 1), none⟩)] } := by
  rw [maintainWiFi, if_neg (by simp [h])]
  exact if_pos ht

theorem maintainWiFi_reconnects {E : Env} {w : World} (h : E.wifi w.reads.wifi = false)
    (ht : ¬ millis (E.uptime w.reads.tick) < w.nextTry) :
    maintainWiFi E w =
      { w with nextTry := millis (E.uptime (w.reads.tick + 2)) + 5000,
               reads := w.reads.nextWifi.nextTick.nextTick.nextTick,
               trace := w.trace ++ [.maintain (some ⟨E.uptime w.reads.tick,
                 E.uptime (w.reads.tick + 1), some (E.uptime (w.reads.tick + 2))⟩)] } := by
  rw [maintainWiFi, if_neg (by simp [h])]
  exact if_neg ht

theorem maintainWiFi_cases (E : Env) (w : World) :
    ∃ c nextTry tick, maintainWiFi E w =
      { w with nextTry := nextTry, reads := ⟨w.reads.wifi + 1, tick⟩,
               trace := w.trace ++ [.maintain c] } := by
  cases hw : E.wifi w.reads.wifi with
  | true => exact ⟨_, _, _, maintainWiFi_up hw⟩
  | false =>
    by_cases ht : millis (E.uptime w.reads.tick) < w.nextTry
    · exact ⟨_, _, _, maintainWiFi_held hw ht⟩
    · exact ⟨_, _, _, maintainWiFi_reconnects hw ht⟩

/-! ## What a call of `handleClient` does -/

/-- Either no handler runs, or that of the waiting request does. -/
theorem handleClient_cases (E : Env) (w : World) :
    handleClient E w =
        { w with clients := w.clients + 1, trace := w.trace ++ [.handleClient] } ∨
      ∃ r, E.request w.clients = some r ∧ w.listening = true ∧ r.route ∈ w.routes ∧
        handleClient E w =
          { w with clients := w.clients + 1, cam := (handle E.camera r w.cam).cam,
                   trace := w.trace ++
                     [.handleClient, .served r (handle E.camera r w.cam).out] } := by
  unfold handleClient
  cases hr : E.request w.clients with
  | none => exact .inl rfl
  | some r =>
    by_cases h : w.listening ∧ r.route ∈ w.routes
    · refine .inr ⟨r, rfl, h.1, h.2, ?_⟩
      simp [World.emit, h]
    · refine .inl ?_
      simp [World.emit, h]

/-! ## Runs -/

def run (E : Env) (n : Nat) (w : World) : World := (loop E)^[n] w

theorem run_succ (E : Env) (n : Nat) (w : World) : run E (n + 1) w = loop E (run E n w) :=
  Function.iterate_succ_apply' (loop E) n w

end Stream
end TimerCam

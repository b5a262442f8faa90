import TimerCam.Stream.Sketch

/-!
# Stream.Guard

What requests without accepted credentials can see and do.

* `handle_refused`        : every handler refuses such a request before it does anything else.
* `unauthenticated_inert` : over runs, no camera operation, an answer made from the `Host` header
  alone, and no trace left for the other requests.
* `run_served`            : a run of the sketch serves its requests as `serve` does.
-/

namespace TimerCam
namespace Stream

/-- The answer to a request without accepted credentials. -/
def refusal (host : Octets.Bytes) : List Out :=
  [.requestAuthentication kAuthRealm (unauthorizedMsg host)]

theorem requireHttpAuth_refused {r : Request} (h : r.authenticate = false) :
    requireHttpAuth r = (false, refusal r.hostHeader) := by
  rw [requireHttpAuth, if_neg (by simp [h])]
  rfl

theorem requireHttpAuth_accepted {r : Request} (h : r.authenticate = true) :
    requireHttpAuth r = (true, []) := by
  rw [requireHttpAuth, if_pos h]

theorem handle_refused (D : Driver) {r : Request} (h : r.authenticate = false) (c : Camera) :
    handle D r c = ⟨c, refusal r.hostHeader⟩ := by
  have ha := requireHttpAuth_refused h
  unfold handle
  cases r.route with
  | root => simp [handleRoot, ha]
  | live => simp [handleLive, ha]
  | jpg => simp [handleJpg, ha]
  | stream => simp [handleStream, ha]

/-! ## Over runs -/

theorem serve_refused {D : Driver} {rs : List Request} {c : Camera} {x : Request × List Out}
    (hx : x ∈ rs.zip (serve D rs c).2) (h : x.1.authenticate = false) :
    x.2 = refusal x.1.hostHeader := by
  obtain ⟨c', -, hc'⟩ := Mealy.run_output (fun _ => True) (fun _ _ _ => trivial) trivial hx
  rw [hc', handle_refused D h]

theorem serve_concat_refused (D : Driver) (rs : List Request) {r : Request}
    (h : r.authenticate = false) (c : Camera) :
    (serve D (rs ++ [r]) c).1 = (serve D rs c).1 := by
  rw [serve_append, serve_singleton, handle_refused D h]

/-- A request without accepted credentials leaves the camera as it was, every call logged on it
included; what it is answered depends on its `Host` header alone, so it is the same for other
frames; and the other requests are served as if it had not been made. -/
theorem unauthenticated_inert (D D' : Driver) (rs : List Request) (c c' : Camera) :
    (∀ pre r post, rs = pre ++ r :: post → r.authenticate = false →
      (serve D (pre ++ [r]) c).1 = (serve D pre c).1) ∧
    (∀ x ∈ rs.zip (serve D rs c).2, x.1.authenticate = false → x.2 = refusal x.1.hostHeader) ∧
    (∀ x ∈ rs.zip ((serve D rs c).2.zip (serve D' rs c').2), x.1.authenticate = false →
      x.2.1 = x.2.2) ∧
    (serve D (rs.filter (·.authenticate)) c).1 = (serve D rs c).1 ∧
    (rs.filter (·.authenticate)).zip (serve D (rs.filter (·.authenticate)) c).2 =
      (rs.zip (serve D rs c).2).filter (·.1.authenticate) := by
  refine ⟨?_, fun x hx => serve_refused hx, ?_, ?_⟩
  · intro pre r post _ h
    exact serve_concat_refused D pre h c
  · intro x hx h
    obtain ⟨h₁, h₂⟩ := Mealy.mem_zip_zip hx
    exact (serve_refused h₁ h).trans (serve_refused h₂ h).symm
  · refine Mealy.run_purge ?_ rs c
    intro c r h
    simp only [handle_refused D h]

/-! ## The requests of a run -/

/-- The requests that a run has served, with their answers. -/
def servedIn (tr : List Ev) : List (Request × List Out) :=
  tr.filterMap fun
    | .served r out => some (r, out)
    | _ => none

theorem maintainWiFi_served (E : Env) (w : World) :
    (maintainWiFi E w).cam = w.cam ∧ servedIn (maintainWiFi E w).trace = servedIn w.trace := by
  obtain ⟨c, nextTry, tick, h⟩ := maintainWiFi_cases E w
  rw [h]
  exact ⟨rfl, by simp [servedIn]⟩

theorem handleClient_served (E : Env) (w : World) :
    ∃ rs : List Request, (handleClient E w).cam = (serve E.camera rs w.cam).1 ∧
      servedIn (handleClient E w).trace =
        servedIn w.trace ++ rs.zip (serve E.camera rs w.cam).2 := by
  rcases handleClient_cases E w with h | ⟨r, -, -, -, h⟩
  · rw [h]
    exact ⟨[], rfl, by simp [servedIn]⟩
  · rw [h]
    exact ⟨[r], rfl, by simp [servedIn, serve_singleton]⟩

theorem loop_served (E : Env) (w : World) :
    ∃ rs : List Request, (loop E w).cam = (serve E.camera rs w.cam).1 ∧
      servedIn (loop E w).trace = servedIn w.trace ++ rs.zip (serve E.camera rs w.cam).2 := by
  unfold loop
  by_cases hw : E.wifi w.reads.wifi
  · obtain ⟨rs, h₁, h₂⟩ := handleClient_served E w.nextWifi
    obtain ⟨h₃, h₄⟩ := maintainWiFi_served E (handleClient E w.nextWifi)
    rw [if_pos hw, h₃, h₄]
    exact ⟨rs, h₁, h₂⟩
  · obtain ⟨h₃, h₄⟩ := maintainWiFi_served E w.nextWifi
    rw [if_neg hw, h₃, h₄]
    exact ⟨[], rfl, by simp [World.nextWifi]⟩

theorem run_served (E : Env) (w : World) (n : Nat) :
    ∃ rs : List Request, (run E n w).cam = (serve E.camera rs w.cam).1 ∧
      servedIn (run E n w).trace = servedIn w.trace ++ rs.zip (serve E.camera rs w.cam).2 := by
  induction n with
  | zero => exact ⟨[], rfl, by simp [run]⟩
  | succ n ih =>
    obtain ⟨rs, h₁, h₂⟩ := ih
    obtain ⟨rs', h₃, h₄⟩ := loop_served E (run E n w)
    rw [run_succ]
    refine ⟨rs ++ rs', ?_, ?_⟩
    · rw [h₃, h₁, serve_append]
    · rw [h₄, h₂, h₁, List.append_assoc, serve_append, List.zip_append (serve_length _ _ _).symm]

end Stream
end TimerCam

import TimerCam.Lib.History
import TimerCam.Stream.Sketch

/-!
# Stream.Startup

Whether the web server is up when `loop` serves clients. `setup` registers the routes and starts the
server only if Wi-Fi is connected at its last look; `loop` calls `server.handleClient()` whenever
Wi-Fi is connected, and nothing starts the server later.

* `setup_spec`, `run_spec` : what `setup` and `n` passes of `loop` do on the server.
* `served_started_iff`     : when every call of `handleClient` finds the server started.
-/

namespace TimerCam
namespace Stream

open History

def registration : List Ev := [.on .root, .on .live, .on .jpg, .on .stream, .begin]

/-- Every `handleClient` comes after the registration of the four routes and `server.begin()`. -/
def ServedStarted (tr : List Ev) : Prop :=
  Each (fun pre e => e = .handleClient → (∀ r : Route, .on r ∈ pre) ∧ .begin ∈ pre) tr

/-- The last status read of `setup`, number `k`, decides about the server. -/
theorem setup_spec {E : Env} {fuel : Nat} {w : World} (h : setup E fuel {} = some w) :
    ∃ k, w.reads.wifi = k + 1 ∧ w.trace = if E.wifi k then registration else [] := by
  simp only [setup] at h
  split at h
  · cases h
  · rename_i reads _
    refine ⟨reads.wifi, ?_⟩
    cases hk : E.wifi reads.wifi with
    | true =>
      simp only [hk, if_true, Option.some.injEq] at h
      subst h
      exact ⟨rfl, rfl⟩
    | false =>
      simp only [hk, Bool.false_eq_true, if_false, Option.some.injEq] at h
      subst h
      exact ⟨rfl, rfl⟩

theorem maintainWiFi_trace (E : Env) (w : World) :
    ∃ c, (maintainWiFi E w).trace = w.trace ++ [.maintain c] ∧
      (maintainWiFi E w).reads.wifi = w.reads.wifi + 1 := by
  obtain ⟨c, nextTry, tick, h⟩ := maintainWiFi_cases E w
  rw [h]
  exact ⟨c, rfl, rfl⟩

theorem handleClient_trace (E : Env) (w : World) :
    ∃ served, (handleClient E w).trace = w.trace ++ .handleClient :: served ∧
      .begin ∉ served ∧ (handleClient E w).reads = w.reads := by
  rcases handleClient_cases E w with h | ⟨r, -, -, -, h⟩
  · rw [h]
    exact ⟨[], rfl, by simp, rfl⟩
  · rw [h]
    exact ⟨[.served r (handle E.camera r w.cam).out], rfl, by simp, rfl⟩

/-- What a pass adds to the trace starts no server, and calls `handleClient` when the first of its
two status reads sees Wi-Fi connected. -/
theorem loop_spec (E : Env) (w : World) :
    ∃ new, (loop E w).trace = w.trace ++ new ∧ .begin ∉ new ∧
      (.handleClient ∈ new ↔ E.wifi w.reads.wifi = true) ∧
      (loop E w).reads.wifi = w.reads.wifi + 2 := by
  unfold loop
  cases hw : E.wifi w.reads.wifi with
  | true =>
    obtain ⟨served, h₁, h₂, h₃⟩ := handleClient_trace E w.nextWifi
    obtain ⟨c, h₄, h₅⟩ := maintainWiFi_trace E (handleClient E w.nextWifi)
    refine ⟨.handleClient :: served ++ [.maintain c], ?_, by simp [h₂], by simp, ?_⟩
    · rw [if_pos rfl, h₄, h₁, List.append_assoc]
      rfl
    · rw [if_pos rfl, h₅, h₃]
      rfl
  | false =>
    obtain ⟨c, h₄, h₅⟩ := maintainWiFi_trace E w.nextWifi
    refine ⟨[.maintain c], ?_, by simp, by simp, ?_⟩
    · rw [if_neg (by simp), h₄]
      rfl
    · rw [if_neg (by simp), h₅]
      rfl

theorem run_spec (E : Env) (w : World) (n : Nat) :
    ∃ new, (run E n w).trace = w.trace ++ new ∧ .begin ∉ new ∧
      (.handleClient ∈ new ↔ ∃ k, k < n ∧ E.wifi (w.reads.wifi + 2 * k) = true) ∧
      (run E n w).reads.wifi = w.reads.wifi + 2 * n := by
  induction n with
  | zero => exact ⟨[], by simp [run], by simp, by simp, rfl⟩
  | succ n ih =>
    obtain ⟨new, h₁, h₂, h₃, h₄⟩ := ih
    obtain ⟨pass, p₁, p₂, p₃, p₄⟩ := loop_spec E (run E n w)
    rw [run_succ]
    refine ⟨new ++ pass, by rw [p₁, h₁, List.append_assoc], by simp [h₂, p₂], ?_, by omega⟩
    rw [List.mem_append, h₃, p₃, h₄]
    constructor
    · rintro (⟨k, hk, hup⟩ | hup)
      · exact ⟨k, by omega, hup⟩
      · exact ⟨n, by omega, hup⟩
    · rintro ⟨k, hk, hup⟩
      by_cases hkn : k < n
      · exact .inl ⟨k, hkn, hup⟩
      · have : k = n := by omega
        subst this
        exact .inr hup

/-- In a run of `n` passes every `handleClient` finds the server started exactly when `setup` saw
Wi-Fi connected at its last look, or no pass of `loop` sees it connected. -/
theorem served_started_iff {E : Env} {fuel : Nat} {w : World} (h : setup E fuel {} = some w)
    (n : Nat) :
    ServedStarted (run E n w).trace ↔
      E.wifi (w.reads.wifi - 1) = true ∨
        ∀ k, k < n → E.wifi (w.reads.wifi + 2 * k) = false := by
  obtain ⟨k₀, hk₀, htr⟩ := setup_spec h
  obtain ⟨new, hrun, hbegin, hserved, -⟩ := run_spec E w n
  rw [hk₀, Nat.add_sub_cancel, hrun, htr, ServedStarted, each_append]
  cases hup : E.wifi k₀ with
  | true =>
    -- the registration comes before every pass
    simp only [if_true, true_or, iff_true]
    refine ⟨?_, ?_⟩
    · simp [registration, each_cons]
    · intro pre e post _ _
      exact ⟨fun r => by cases r <;> simp [registration], by simp [registration]⟩
  | false =>
    simp only [Bool.false_eq_true, if_false, false_or, each_nil, true_and, List.nil_append]
    constructor
    · intro hall k hk
      cases hp : E.wifi (k₀ + 1 + 2 * k) with
      | false => rfl
      | true =>
        have hmem : .handleClient ∈ new := hserved.mpr ⟨k, hk, by rw [hk₀]; exact hp⟩
        obtain ⟨pre, post, rfl⟩ := List.append_of_mem hmem
        have := (hall pre .handleClient post rfl rfl).2
        exact absurd (List.mem_append_left _ this) hbegin
    · rintro hdown pre e post rfl rfl
      obtain ⟨k, hk, hp⟩ := hserved.mp (by simp)
      rw [hk₀, hdown k hk] at hp
      cases hp

/-- Wi-Fi comes up only after `setup` has looked for the last time. -/
def lateEnv : Env :=
  { wifi := fun k => 3 ≤ k, uptime := fun k => 30000 * k, camera := fun _ => none,
    request := fun _ => none }

def lateWorld : World := { reads := ⟨3, 2⟩, cam := testSingleCapture (fun _ => none) {} }

theorem setup_late : setup lateEnv 1 {} = some lateWorld := rfl

theorem served_started_late :
    ServedStarted (run lateEnv 1 lateWorld).trace ↔
      lateEnv.wifi (lateWorld.reads.wifi - 1) = true ∨
        ∀ k, k < 1 → lateEnv.wifi (lateWorld.reads.wifi + 2 * k) = false :=
  served_started_iff setup_late 1

theorem served_without_server :
    setup lateEnv 1 {} = some lateWorld ∧ ¬ ServedStarted (run lateEnv 1 lateWorld).trace := by
  refine ⟨rfl, fun h => ?_⟩
  have htr : (run lateEnv 1 lateWorld).trace = [] ++ .handleClient :: [.maintain none] := by decide
  have := (h [] .handleClient _ htr rfl).2
  cases this

end Stream
end TimerCam

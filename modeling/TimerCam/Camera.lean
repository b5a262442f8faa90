import TimerCam.Lib.Octets
import TimerCam.Lib.Lease

/-!
# Camera

`Camera_Class` over the camera driver, as both sketches use it. The driver lends frame buffers:
`esp_camera_fb_get` gives one or nothing, `esp_camera_fb_return` takes it back.

* `Camera.get`, `Camera.free` : the two member functions. `free` does not clear `fb`.
* `warmUp`                    : the capture loop that both sketches start with.
* `Camera.At c h`             : every buffer has been used as it may be, and `h` is held now.
-/

namespace TimerCam

open Octets

/-- `camera_fb_t`: the buffer lent by call number `id`, and its contents. -/
structure Frame where
  id : Nat
  buf : Bytes
deriving DecidableEq

def Frame.len (f : Frame) : Nat := f.buf.length

/-- The driver: what call number `k` of `esp_camera_fb_get` returns. -/
abbrev Driver := Nat → Option Bytes

inductive CamEv where
  /-- `esp_camera_fb_get` returned `fb`. -/
  | grab (fb : Option Frame)
  /-- `Camera.free` was called and found the pointer `fb`. -/
  | free (fb : Option Frame)
  | giveBack (fb : Frame)
  /-- `fb->buf` or `fb->len` was read through the pointer `fb`. -/
  | read (fb : Option Frame)
deriving DecidableEq

structure Camera where
  /-- `Camera_Class::fb`; the object is static, so the pointer starts as null. -/
  fb : Option Frame := none
  /-- Calls of `esp_camera_fb_get` so far. -/
  grabs : Nat := 0
  log : List CamEv := []
deriving DecidableEq

namespace Camera

/-- `Camera_Class::get`. It returns whether `fb` is set. -/
def get (D : Driver) (c : Camera) : Camera :=
  let fb := (D c.grabs).map (Frame.mk c.grabs)
  { fb := fb, grabs := c.grabs + 1, log := c.log ++ [.grab fb] }

def free (c : Camera) : Camera :=
  match c.fb with
  | some f => { c with log := c.log ++ [.free (some f), .giveBack f] }
  | none => { c with log := c.log ++ [.free none] }

/-- An access to the fields of `*fb`. -/
def read (fb : Option Frame) (c : Camera) : Camera := { c with log := c.log ++ [.read fb] }

@[simp] theorem free_grabs (c : Camera) : c.free.grabs = c.grabs := by
  cases h : c.fb <;> simp [free, h]

@[simp] theorem get_grabs (D : Driver) (c : Camera) : (c.get D).grabs = c.grabs + 1 := rfl

@[simp] theorem get_fb (D : Driver) (c : Camera) :
    (c.get D).fb = (D c.grabs).map (Frame.mk c.grabs) := rfl

@[simp] theorem read_grabs (fb : Option Frame) (c : Camera) : (c.read fb).grabs = c.grabs := rfl

end Camera

/-- `n` captures, all but the last given back at once:
`for (i = 0; i < n; i++) { if (!get()) return; if (i < n - 1) { free(); delay(..); } }`.
The answer says whether the last frame was reached. -/
def warmUp {σ : Type} (get : σ → σ) (got : σ → Bool) (drop : σ → σ) : Nat → σ → Bool × σ
  | 0, s => (true, s)
  | n + 1, s =>
    let s := get s
    if got s then
      if n = 0 then (true, s) else warmUp get got drop n (drop s)
    else (false, s)

theorem warmUp_spec {σ : Type} (get : σ → σ) (got : σ → Bool) (drop : σ → σ)
    (Idle Held : σ → Prop) (hgot : ∀ s, Idle s → got (get s) = true → Held (get s))
    (hfail : ∀ s, Idle s → got (get s) = false → Idle (get s))
    (hdrop : ∀ s, Held s → Idle (drop s)) :
    ∀ (n : Nat) (s : σ), Idle s →
      let r := warmUp get got drop (n + 1) s
      (r.1 = true → Held r.2 ∧ got r.2 = true) ∧ (r.1 = false → Idle r.2) := by
  intro n
  induction n with
  | zero =>
    intro s hs
    cases hg : got (get s) with
    | true => simpa [warmUp, hg] using hgot s hs hg
    | false => simpa [warmUp, hg] using hfail s hs hg
  | succ n ih =>
    intro s hs
    rw [warmUp]
    cases hg : got (get s) with
    | true => simpa [hg] using ih (drop (get s)) (hdrop _ (hgot s hs hg))
    | false => simpa [hg] using hfail s hs hg

/-! ## Who holds the buffer -/

/-- A camera event as an event of a lease. A call of `free` needs the buffer it names to be held,
and so does an access to its fields. -/
def CamEv.lease : CamEv → Lease.Ev Frame
  | .grab fb => .acquire fb
  | .free fb => .touch fb
  | .giveBack f => .release f
  | .read fb => .touch fb

/-- The discipline has been kept so far; `h` is held, and then `fb` points to it. -/
structure Camera.At (c : Camera) (h : Option Frame) : Prop where
  run : Lease.Run none (c.log.map CamEv.lease) h
  fb : ∀ f, h = some f → c.fb = some f

namespace Camera.At

theorem init : Camera.At {} none := ⟨.nil, by simp⟩

theorem get {c : Camera} (h : c.At none) (D : Driver) : (c.get D).At (c.get D).fb where
  run := by
    simp only [Camera.get, List.map_append]
    exact h.run.trans (.acquire .nil)
  fb _ hf := hf

theorem read {c : Camera} {f : Frame} (h : c.At (some f)) : (c.read (some f)).At (some f) where
  run := by
    simp only [Camera.read, List.map_append]
    exact h.run.trans (.touch .nil)
  fb := h.fb

theorem free {c : Camera} {f : Frame} (h : c.At (some f)) : c.free.At none where
  run := by
    simp only [Camera.free, h.fb f rfl, List.map_append]
    exact h.run.trans (.touch (.release .nil))
  fb := by simp

end Camera.At

end TimerCam

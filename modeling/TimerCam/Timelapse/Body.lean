import TimerCam.Lib.UrlForm
import TimerCam.Timelapse.Sketch

/-!
# Timelapse.Body

What the other side reads in the body of an upload.

* `fullBody_carries`     : a body that is complete has its three fields, the image in the third.
* `posted_read_back`     : so every body posted does, when no append runs out of memory.
* `posts_complete_iff`   : when appends may fail, nothing incomplete is posted exactly when none
  of those that build the body does.
-/

namespace TimerCam
namespace Timelapse

open Octets UrlForm

/-! ## The fields -/

/-- The characters that have a meaning in a form. -/
def reserved : Bytes := [amp, equals, plus, percent]

/-- No character of `s` has a meaning in a form. -/
structure Plain (s : Bytes) : Prop where
  amp : amp ∉ s
  equals : equals ∉ s
  plus : plus ∉ s
  percent : percent ∉ s

namespace Plain

theorem of_avoids {s : Bytes} (h : reserved.all (!s.contains ·) = true) : Plain s := by
  simp only [reserved, List.all_cons, List.all_nil, Bool.and_eq_true, Bool.not_eq_true',
    List.contains_eq_mem, decide_eq_false_iff_not] at h
  exact ⟨h.1, h.2.1, h.2.2.1, h.2.2.2.1⟩

theorem append {s t : Bytes} (hs : Plain s) (ht : Plain t) : Plain (s ++ t) where
  amp := by simp [hs.amp, ht.amp]
  equals := by simp [hs.equals, ht.equals]
  plus := by simp [hs.plus, ht.plus]
  percent := by simp [hs.percent, ht.percent]

theorem of_digits {s : Bytes} (h : ∀ c ∈ s, ∃ d, d < 10 ∧ c = digit d) : Plain s := by
  have hne : ∀ x : UInt8, x.toNat < 48 ∨ 57 < x.toNat → x ∉ s := by
    intro x hx hmem
    obtain ⟨d, hd, rfl⟩ := h x hmem
    rw [digit_toNat hd] at hx
    omega
  exact ⟨hne _ (.inl (by decide)), hne _ (.inr (by decide)), hne _ (.inl (by decide)),
    hne _ (.inl (by decide))⟩

theorem decimal (n : Nat) : Plain (decimal n) := of_digits fun _ => mem_decimal

theorem pad (w n : Nat) : Plain (pad w n) := of_digits fun _ => mem_pad

theorem component {s : Bytes} (h : Plain s) : component s = s := component_eq h.plus h.percent

end Plain

theorem plain_folderPath : Plain folderPath := .of_avoids rfl

theorem plain_jpg : Plain (text ".jpg") := .of_avoids rfl

theorem strftime_plain {size : Nat} {t : Tm} {s : Bytes} (h : strftime size t = some s) :
    Plain s := by
  simp only [strftime] at h
  split at h
  · simp only [Option.some.injEq] at h
    subst h
    have hsep : Plain (text "_") := .of_avoids rfl
    exact ((((((Plain.decimal _).append (.pad _ _)).append (.pad _ _)).append hsep).append
      (.pad _ _)).append (.pad _ _)).append (.pad _ _)
  · cases h

theorem getTimestampFilename_plain {E : Env} {w : World} {name : Bytes}
    (h : (getTimestampFilename E w).1 = some name) : name ≠ [] ∧ Plain name := by
  simp only [getTimestampFilename] at h
  split at h
  · simp only [Option.map_eq_some_iff] at h
    obtain ⟨s, hs, rfl⟩ := h
    exact ⟨by simp [text], (strftime_plain hs).append plain_jpg⟩
  · simp only [Option.some.injEq] at h
    subst h
    have himage : Plain (text "image_") := .of_avoids rfl
    exact ⟨by simp [text], (himage.append (.decimal _)).append plain_jpg⟩

/-! ## The image -/

theorem unescape_escapeChar {c : UInt8} (h : c ≠ percent) (rest : Bytes) :
    unescape (escapeChar c ++ rest) = c :: unescape rest := by
  unfold escapeChar
  by_cases h₁ : c = 43
  · rw [if_pos h₁, h₁]
    exact @unescape_percent 50 66 2 11 rfl rfl rest
  · by_cases h₂ : c = 47
    · rw [if_neg h₁, if_pos h₂, h₂]
      exact @unescape_percent 50 70 2 15 rfl rfl rest
    · by_cases h₃ : c = 61
      · rw [if_neg h₁, if_neg h₂, if_pos h₃, h₃]
        exact @unescape_percent 51 68 3 13 rfl rfl rest
      · rw [if_neg h₁, if_neg h₂, if_neg h₃, List.singleton_append, unescape_cons h]

theorem unescape_escape {s : Bytes} (h : percent ∉ s) : unescape (escape s) = s := by
  rw [escape_eq]
  induction s with
  | nil => rfl
  | cons c s ih =>
    simp only [List.mem_cons, not_or] at h
    rw [List.flatMap_cons, unescape_escapeChar (Ne.symm h.1), ih h.2]

/-- What escaping brings in is neither `x` nor hides it, for a character `x` outside its texts. -/
theorem not_mem_escape {x : UInt8} {s : Bytes}
    (hx : x ∉ text "%2B" ∧ x ∉ text "%2F" ∧ x ∉ text "%3D") (h : x ∉ s ∨ x = 43) :
    x ∉ escape s := by
  simp only [escape_eq, List.mem_flatMap, not_exists, not_and]
  intro c hc hm
  unfold escapeChar at hm
  split at hm
  · exact hx.1 hm
  · split at hm
    · exact hx.2.1 hm
    · split at hm
      · exact hx.2.2 hm
      · obtain rfl := List.mem_singleton.mp hm
        rcases h with h | rfl
        · exact h hc
        · contradiction

/-- An escaped chunk has no `&`, and is decoded to what it was. -/
theorem component_escape {s : Bytes} (h : percent ∉ s) : component (escape s) = s := by
  have hplus : plus ∉ escape s := not_mem_escape (by decide) (.inr rfl)
  rw [component, plusToSpace_eq hplus, unescape_escape h]

theorem not_mem_encode {x : UInt8} (h : x ∉ Base64.alphabet ∧ x ≠ Base64.padding) (s : Bytes) :
    x ∉ Base64.encode s := by
  intro hx
  rcases Base64.mem_encode hx with hx | hx
  · exact h.1 hx
  · exact h.2 hx

theorem encode_plain (s : Bytes) : amp ∉ Base64.encode s ∧ percent ∉ Base64.encode s :=
  ⟨not_mem_encode (by decide) s, not_mem_encode (by decide) s⟩

def formFields (fileName folderPath fileData : Bytes) : List (Bytes × Bytes) :=
  [(text "fileName", fileName), (text "folderPath", folderPath), (text "fileData", fileData)]

theorem formBody_eq (fileName folderPath encoded : Bytes) :
    formBody fileName folderPath encoded = [amp].intercalate
      ((formFields fileName folderPath (escape encoded)).map fun f => f.1 ++ equals :: f.2) := by
  have h₁ : text "fileName=" = text "fileName" ++ [equals] := rfl
  have h₂ : text "&folderPath=" = amp :: (text "folderPath" ++ [equals]) := rfl
  have h₃ : text "&fileData=" = amp :: (text "fileData" ++ [equals]) := rfl
  simp only [formBody, formFields, List.map_cons, List.map_nil, h₁, h₂, h₃]
  simp [List.intercalate]

theorem parse_formBody {fileName folderPath encoded : Bytes} (h₁ : Plain fileName)
    (h₂ : Plain folderPath) (h₃ : amp ∉ encoded ∧ percent ∉ encoded) :
    parse (formBody fileName folderPath encoded) = formFields fileName folderPath encoded := by
  have hfields : ∀ f ∈ formFields fileName folderPath (escape encoded),
      amp ∉ f.1 ∧ equals ∉ f.1 ∧ amp ∉ f.2 := by
    have hnames : ∀ n ∈ [text "fileName", text "folderPath", text "fileData"],
        amp ∉ n ∧ equals ∉ n := by decide
    intro f hf
    simp only [formFields, List.mem_cons, List.not_mem_nil, or_false] at hf
    rcases hf with rfl | rfl | rfl
    · exact ⟨(hnames _ (by simp)).1, (hnames _ (by simp)).2, h₁.amp⟩
    · exact ⟨(hnames _ (by simp)).1, (hnames _ (by simp)).2, h₂.amp⟩
    · exact ⟨(hnames _ (by simp)).1, (hnames _ (by simp)).2, not_mem_escape (by decide) (.inl h₃.1)⟩
  have hname : ∀ s ∈ [text "fileName", text "folderPath", text "fileData"], component s = s := by
    decide
  rw [formBody_eq, parse_intercalate (by simp [formFields]) hfields]
  simp only [formFields, List.map_cons, List.map_nil, h₁.component, h₂.component,
    component_escape h₃.2, hname (text "fileName") (by simp), hname (text "folderPath") (by simp),
    hname (text "fileData") (by simp)]

/-- What a reader finds in `body`: the two names, and the image in strict base64. -/
def Carries (body fileName folderPath image : Bytes) : Prop :=
  ∃ v, parse body = formFields fileName folderPath v ∧ Base64.decode v = some image

theorem fullBody_carries {fileName folderPath : Bytes} (h₁ : Plain fileName) (h₂ : Plain folderPath)
    (image : Bytes) : Carries (fullBody fileName folderPath image) fileName folderPath image :=
  ⟨Base64.encode image, parse_formBody h₁ h₂ (encode_plain image), Base64.decode_encode image⟩

theorem folderPath_ne_nil : folderPath ≠ [] := by decide

/-- When no append runs out of memory, every body posted by an upload has its three fields: the name
and the folder as they were passed in, and the image. -/
theorem posted_read_back {E : Env} (hheap : ∀ k, E.heap k = true) {w₀ : World} {fileName : Bytes}
    (hname : (getTimestampFilename E w₀).1 = some fileName) (fb : Frame) (w : World) :
    ∃ new, (uploadToGoogleDrive E fb fileName folderPath w).2.trace = w.trace ++ new ∧
      (∃ body, .httpPost body ∈ new) ∧
      ∀ body, .httpPost body ∈ new → Carries body fileName folderPath fb.buf := by
  obtain ⟨hne, hplain⟩ := getTimestampFilename_plain hname
  obtain ⟨new, htrace, hposted, hall⟩ := upload_posts E fb fileName folderPath w
  refine ⟨new, htrace, ⟨_, hposted⟩, fun body hbody => ?_⟩
  have hfull := (postedBody_iff E fb hne folderPath_ne_nil w).mpr fun k _ _ => hheap k
  rw [hall body hbody, hfull]
  exact fullBody_carries hplain plain_folderPath fb.buf

theorem noonEnv_name : (getTimestampFilename noonEnv {}).1 = some (text "20240128_200000.jpg") := by
  decide +kernel

theorem posted_read_back_noon :
    ∃ new, (uploadToGoogleDrive noonEnv ⟨0, [1, 2, 3]⟩ (text "20240128_200000.jpg") folderPath
        {}).2.trace = [] ++ new ∧
      (∃ body, .httpPost body ∈ new) ∧
      ∀ body, .httpPost body ∈ new →
        Carries body (text "20240128_200000.jpg") folderPath [1, 2, 3] :=
  posted_read_back (fun _ => rfl) noonEnv_name ⟨0, [1, 2, 3]⟩ {}

/-! ## Appends that fail -/

/-- Every body posted by an upload is complete and carries the image exactly when all appends of its
building find memory: the four of its head, one for each character of the encoding, and one for each
chunk. -/
theorem posts_complete_iff {E : Env} {w₀ : World} {fileName : Bytes}
    (hname : (getTimestampFilename E w₀).1 = some fileName) (fb : Frame) (w : World) :
    ∃ new, (uploadToGoogleDrive E fb fileName folderPath w).2.trace = w.trace ++ new ∧
      (∃ body, .httpPost body ∈ new) ∧
      ((∀ body, .httpPost body ∈ new → body = fullBody fileName folderPath fb.buf ∧
          Carries body fileName folderPath fb.buf) ↔
        ∀ k, w.appends ≤ k →
          k < w.appends + (4 + (4 * ((fb.len + 2) / 3) + (fb.len + 509) / 510)) →
          E.heap k = true) := by
  obtain ⟨hne, hplain⟩ := getTimestampFilename_plain hname
  obtain ⟨new, htrace, hposted, hall⟩ := upload_posts E fb fileName folderPath w
  have hiff := postedBody_iff E fb hne folderPath_ne_nil w
  refine ⟨new, htrace, ⟨_, hposted⟩, ?_⟩
  constructor
  · intro h
    exact hiff.mp (h _ hposted).1
  · intro h body hbody
    rw [hall body hbody, hiff.mpr h]
    exact ⟨rfl, fullBody_carries hplain plain_folderPath fb.buf⟩

theorem posts_complete_iff_noon :
    ∃ new, (uploadToGoogleDrive noonEnv ⟨0, [1, 2, 3]⟩ (text "20240128_200000.jpg") folderPath
        {}).2.trace = [] ++ new ∧
      (∃ body, .httpPost body ∈ new) ∧
      ((∀ body, .httpPost body ∈ new →
          body = fullBody (text "20240128_200000.jpg") folderPath [1, 2, 3] ∧
          Carries body (text "20240128_200000.jpg") folderPath [1, 2, 3]) ↔
        ∀ k, 0 ≤ k → k < 0 + (4 + (4 * ((3 + 2) / 3) + (3 + 509) / 510)) →
          noonEnv.heap k = true) :=
  posts_complete_iff noonEnv_name ⟨0, [1, 2, 3]⟩ {}

/-- A part of an encoding does not carry the image, if the image needs no padding. -/
theorem not_carries_of_short {fileName folderPath t image : Bytes} (h₁ : Plain fileName)
    (h₂ : Plain folderPath) (hsub : t.Sublist (Base64.encode image))
    (hlen : t.length < (Base64.encode image).length) (h₃ : image.length % 3 = 0) :
    ¬ Carries (formBody fileName folderPath t) fileName folderPath image := by
  rintro ⟨v, hparse, hdecode⟩
  have hchars : amp ∉ t ∧ percent ∉ t :=
    ⟨fun h => (encode_plain image).1 (hsub.subset h),
      fun h => (encode_plain image).2 (hsub.subset h)⟩
  rw [parse_formBody h₁ h₂ hchars] at hparse
  simp only [formFields, List.cons.injEq, Prod.mk.injEq, true_and, and_true] at hparse
  subst hparse
  have := Base64.decode_length hdecode
  rw [Base64.encode_length] at hlen
  omega

/-- The append of the second chunk finds no memory; all later ones do. -/
def leakyEnv : Env := { noonEnv with heap := fun k => k ≠ 4 + 681 + 680 }

def threeChunks : Frame := ⟨0, List.replicate 1530 0⟩

/-- The upload posts a body without the second chunk, and reports success. -/
theorem truncated_body_posted :
    (uploadToGoogleDrive leakyEnv threeChunks (text "20240128_200000.jpg") folderPath {}).1 = true ∧
      ∃ body, .httpPost body ∈ (uploadToGoogleDrive leakyEnv threeChunks
          (text "20240128_200000.jpg") folderPath {}).2.trace ∧
        body ≠ fullBody (text "20240128_200000.jpg") folderPath threeChunks.buf ∧
        ¬ Carries body (text "20240128_200000.jpg") folderPath threeChunks.buf := by
  obtain ⟨hne, hplain⟩ := getTimestampFilename_plain noonEnv_name
  obtain ⟨new, htrace, hposted, -⟩ :=
    upload_posts leakyEnv threeChunks (text "20240128_200000.jpg") folderPath {}
  have hiff := postedBody_iff leakyEnv threeChunks hne folderPath_ne_nil {}
  have hcut : postedBody leakyEnv threeChunks (text "20240128_200000.jpg") folderPath {} ≠
      fullBody (text "20240128_200000.jpg") folderPath threeChunks.buf := by
    intro h
    have := hiff.mp h (4 + 681 + 680) (Nat.zero_le _) (by
      simp only [bodyAppends, chunkAppends, threeChunks, Frame.len, List.length_replicate]
      omega)
    simp [leakyEnv] at this
  obtain ⟨t, hsub, ht⟩ := postedBody_form leakyEnv threeChunks hne folderPath_ne_nil {} (by
    intro k _ hk
    simp only [leakyEnv, ne_eq, decide_not, Bool.not_eq_true', decide_eq_false_iff_not]
    simp only at hk
    omega)
  have hlen : t.length < (Base64.encode threeChunks.buf).length := by
    refine Nat.lt_of_le_of_ne hsub.length_le fun heq => hcut ?_
    rw [ht, hsub.eq_of_length heq]
    rfl
  refine ⟨by simp [uploadToGoogleDrive, sendPostData, POST, leakyEnv, noonEnv], _,
    by rw [htrace]; exact List.mem_append_right _ hposted, hcut, ?_⟩
  rw [ht]
  exact not_carries_of_short hplain plain_folderPath hsub hlen
    (by simp only [threeChunks, List.length_replicate])

end Timelapse
end TimerCam

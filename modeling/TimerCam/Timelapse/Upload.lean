import TimerCam.Timelapse.Encode
import TimerCam.Timelapse.World

/-!
# Timelapse.Upload

`uploadToGoogleDrive` of `m5cam_timelapse_v9_end_final.ino`: the body is built in one `String` that
grows chunk by chunk, and is posted, a second time after a redirect.

* `chunkLoop_adds`  : what the chunk loop builds, and by how many appends.
* `postedBody_iff`  : when the whole body is complete.
* `upload_extends`  : what an upload adds to the trace.
-/

namespace TimerCam
namespace Timelapse

open Octets

def GOOGLE_SCRIPT_URL : Bytes :=
  text "https://script.google.com/macros/s/AKfycbwAWwkB-BqAoXN7quLP8zyBt_iiJn18ruHVMzai6lZe29U2zuyj0" ++
  text "eGEWoCwVv75NnWgPg/exec"

def CHUNK_SIZE : Nat := 510

/-- `"fileName=" + fileName + "&folderPath=" + folderPath + "&fileData="`. -/
def head (heap : Nat → Bool) (k : Nat) (fileName folderPath : Bytes) : Builder UInt8 :=
  ((((Builder.mk (text "fileName=") k).plus heap fileName).plus heap (text "&folderPath=")).plus heap
    folderPath).plus heap (text "&fileData=")

/-- Encode a chunk, escape it and append it: `postData += chunk`. -/
def appendChunk (heap : Nat → Bool) (postData : Builder UInt8) (data : Bytes) : Builder UInt8 :=
  let chunk := base64EncodeChunked heap postData.appends data
  (Builder.mk postData.text chunk.appends).append heap (escape chunk.text)

/-- `while (processed < size)`; `buffer` and `size` are the fields of `*fb`. -/
def chunkLoop (E : Env) (fb : Frame) (processed : Nat) (postData : Builder UInt8) (w : World) :
    Builder UInt8 × World :=
  if processed < fb.len then
    let chunkSize := if fb.len - processed > CHUNK_SIZE then CHUNK_SIZE else fb.len - processed
    let w := w.read (some fb)
    let postData := appendChunk E.heap postData ((fb.buf.drop processed).take chunkSize)
    let processed := processed + chunkSize
    let w := if processed % 3072 = 0 then (w.emit (.progress processed fb.len)).delay 10 else w
    chunkLoop E fb processed postData w
  else (postData, w)
termination_by fb.len - processed
decreasing_by
  have : 0 < CHUNK_SIZE := by decide
  split <;> omega

/-- `http.begin(url)`, the header, and `http.POST(postData)`. -/
def POST (E : Env) (url postData : Bytes) (w : World) : Reply × World :=
  let w := w.emit (.httpBegin url)
  let w := w.emit (.httpAddHeader (text "Content-Type") (text "application/x-www-form-urlencoded"))
  (E.post w.posts, { w with posts := w.posts + 1 }.emit (.httpPost postData))

/-- What `uploadToGoogleDrive` does with the body. The codes and the responses that it prints are left
out. -/
def sendPostData (E : Env) (url postData : Bytes) (w : World) : Bool × World :=
  let r := POST E url postData w
  if r.1.code = 302 then
    let newUrl := r.1.location
    let w := r.2.emit .httpEnd
    let r := POST E newUrl postData w
    let w := r.2.emit (.serial (text "Upload Success"))
    (r.1.code == 200, w.emit .httpEnd)
  else (r.1.code == 200, r.2.emit .httpEnd)

def uploadToGoogleDrive (E : Env) (fb : Frame) (fileName folderPath : Bytes) (w : World) :
    Bool × World :=
  let w := w.emit (.upload fileName folderPath)
  let r := chunkLoop E fb 0 (head E.heap w.appends fileName folderPath) w
  sendPostData E GOOGLE_SCRIPT_URL r.1.text { r.2 with appends := r.1.appends }

/-! ## What the body is built of -/

/-- Appends for a rest of `n` octets: one for each character, one for each chunk. -/
def chunkAppends (n : Nat) : Nat := 4 * ((n + 2) / 3) + (n + 509) / 510

theorem appendChunk_adds (heap : Nat → Bool) {data : Bytes} (hne : data ≠ [])
    (postData : Builder UInt8) :
    Builder.Adds heap postData (escape (Base64.encode data)) (4 * ((data.length + 2) / 3) + 1)
      (appendChunk heap postData data) := by
  have hadds : Builder.Adds heap ⟨[], postData.appends⟩ (Base64.encode data)
      (4 * ((data.length + 2) / 3)) (base64EncodeChunked heap postData.appends data) := by
    rw [base64EncodeChunked_eq, ← Base64.encode_length]
    exact .appendEach _ _
  refine hadds.nested ?_ (escape_ne_nil (by rwa [ne_eq, Base64.encode_eq_nil]))
  intro hlen
  obtain ⟨t, hsub, ht⟩ :=
    Builder.appendEach_sublist heap (Base64.encode data) (Builder.mk [] postData.appends)
  rw [← base64EncodeChunked_eq, List.nil_append] at ht
  rw [ht] at hlen ⊢
  have := length_escape_of_sublist hsub
  omega

/-- The chunk that the loop takes at `processed`. -/
def chunkAt (fb : Frame) (processed : Nat) : Bytes := (fb.buf.drop processed).take CHUNK_SIZE

theorem chunkAt_length (fb : Frame) (processed : Nat) :
    (chunkAt fb processed).length =
      if fb.len - processed > CHUNK_SIZE then CHUNK_SIZE else fb.len - processed := by
  rw [chunkAt, List.length_take, List.length_drop, Frame.len]
  split <;> omega

theorem chunkAt_pos {fb : Frame} {processed : Nat} (h : processed < fb.len) :
    0 < (chunkAt fb processed).length := by
  rw [chunkAt_length]
  have : 0 < CHUNK_SIZE := by decide
  split <;> omega

/-- The world after the chunk that ends at `processed`: there may be a pause. -/
def afterChunk (fb : Frame) (processed : Nat) (w : World) : World :=
  if processed % 3072 = 0 then ((w.read (some fb)).emit (.progress processed fb.len)).delay 10
  else w.read (some fb)

theorem chunkLoop_step {E : Env} {fb : Frame} {processed : Nat} (h : processed < fb.len)
    (postData : Builder UInt8) (w : World) :
    chunkLoop E fb processed postData w =
      chunkLoop E fb (processed + (chunkAt fb processed).length)
        (appendChunk E.heap postData (chunkAt fb processed))
        (afterChunk fb (processed + (chunkAt fb processed).length) w) := by
  have htake : (fb.buf.drop processed).take (chunkAt fb processed).length =
      chunkAt fb processed := by
    rw [chunkAt, List.length_take, ← List.take_take, List.take_length]
  rw [chunkLoop, if_pos h]
  simp only [← chunkAt_length, htake]
  rfl

theorem chunkLoop_done {E : Env} {fb : Frame} {processed : Nat} (h : fb.len ≤ processed)
    (postData : Builder UInt8) (w : World) :
    chunkLoop E fb processed postData w = (postData, w) := by
  rw [chunkLoop, if_neg (by omega)]

theorem chunkLoop_rule {E : Env} {fb : Frame}
    {I : Nat → Builder UInt8 → World → Builder UInt8 × World → Prop}
    (done : ∀ {processed postData w}, fb.len ≤ processed → I processed postData w (postData, w))
    (step : ∀ {processed postData w r}, processed < fb.len →
      I (processed + (chunkAt fb processed).length)
        (appendChunk E.heap postData (chunkAt fb processed))
        (afterChunk fb (processed + (chunkAt fb processed).length) w) r →
      I processed postData w r) (processed : Nat) (postData : Builder UInt8) (w : World) :
    I processed postData w (chunkLoop E fb processed postData w) := by
  induction hn : fb.len - processed using Nat.strong_induction_on
    generalizing processed postData w with
  | _ n ih =>
  by_cases h : processed < fb.len
  · have hpos := chunkAt_pos h
    rw [chunkLoop_step h]
    exact step h (ih _ (by omega) _ _ _ rfl)
  · rw [chunkLoop_done (by omega)]
    exact done (by omega)

/-- Encoding chunk by chunk is encoding the whole: every chunk but the last has 510 octets. -/
theorem encode_chunkAt (fb : Frame) (processed : Nat) :
    Base64.encode (fb.buf.drop processed) = Base64.encode (chunkAt fb processed) ++
      Base64.encode (fb.buf.drop (processed + (chunkAt fb processed).length)) := by
  rw [← List.drop_drop]
  exact Base64.encode_slice (by decide) (fb.buf.drop processed)

theorem chunkAppends_step (fb : Frame) {processed : Nat} (h : processed < fb.len) :
    chunkAppends (fb.len - processed) = 4 * (((chunkAt fb processed).length + 2) / 3) + 1 +
      chunkAppends (fb.len - (processed + (chunkAt fb processed).length)) := by
  have hlen := chunkAt_length fb processed
  unfold chunkAppends
  by_cases hlast : fb.len - processed > CHUNK_SIZE
  · rw [hlen, if_pos hlast]
    unfold CHUNK_SIZE at hlast ⊢
    omega
  · rw [hlen, if_neg hlast]
    unfold CHUNK_SIZE at hlast
    omega

theorem chunkLoop_adds (E : Env) (fb : Frame) (processed : Nat) (postData : Builder UInt8)
    (w : World) :
    Builder.Adds E.heap postData (escape (Base64.encode (fb.buf.drop processed)))
      (chunkAppends (fb.len - processed)) (chunkLoop E fb processed postData w).1 := by
  refine chunkLoop_rule (I := fun processed postData _ r =>
    Builder.Adds E.heap postData (escape (Base64.encode (fb.buf.drop processed)))
      (chunkAppends (fb.len - processed)) r.1) ?_ ?_ processed postData w
  · intro processed postData w h
    rw [List.drop_eq_nil_of_le h, Nat.sub_eq_zero_of_le h]
    exact .refl _
  · intro processed postData w r h ih
    have hne : chunkAt fb processed ≠ [] := List.length_pos_iff.mp (chunkAt_pos h)
    rw [encode_chunkAt, escape_append, chunkAppends_step fb h]
    exact (appendChunk_adds E.heap hne postData).trans ih

/-- Failed appends leave characters of the encoding out, and nothing else. -/
theorem appendChunk_sublist (heap : Nat → Bool) (postData : Builder UInt8) (data : Bytes) :
    ∃ t, t.Sublist (Base64.encode data) ∧
      (appendChunk heap postData data).text = postData.text ++ escape t := by
  obtain ⟨t, hsub, ht⟩ :=
    Builder.appendEach_sublist heap (Base64.encode data) (Builder.mk [] postData.appends)
  rw [← base64EncodeChunked_eq, List.nil_append] at ht
  simp only [appendChunk, Builder.append, ht]
  split
  · exact ⟨t, hsub, rfl⟩
  · exact ⟨[], List.nil_sublist _, (List.append_nil _).symm⟩

theorem chunkLoop_sublist (E : Env) (fb : Frame) (processed : Nat) (postData : Builder UInt8)
    (w : World) :
    ∃ t, t.Sublist (Base64.encode (fb.buf.drop processed)) ∧
      (chunkLoop E fb processed postData w).1.text = postData.text ++ escape t := by
  refine chunkLoop_rule (I := fun processed postData _ r =>
    ∃ t, t.Sublist (Base64.encode (fb.buf.drop processed)) ∧ r.1.text = postData.text ++ escape t)
    ?_ ?_ processed postData w
  · intro processed postData w _
    exact ⟨[], List.nil_sublist _, (List.append_nil _).symm⟩
  · intro processed postData w r h ih
    obtain ⟨t, hsub, ht⟩ := ih
    obtain ⟨t', hsub', ht'⟩ := appendChunk_sublist E.heap postData (chunkAt fb processed)
    refine ⟨t' ++ t, ?_, ?_⟩
    · rw [encode_chunkAt]
      exact hsub'.append hsub
    · rw [ht, ht', escape_append, List.append_assoc]

def formBody (fileName folderPath encoded : Bytes) : Bytes :=
  text "fileName=" ++ fileName ++ text "&folderPath=" ++ folderPath ++ text "&fileData=" ++
    escape encoded

/-- The whole body, and the appends it takes. -/
def fullBody (fileName folderPath buffer : Bytes) : Bytes :=
  formBody fileName folderPath (Base64.encode buffer)

def bodyAppends (size : Nat) : Nat := 4 + chunkAppends size

def postedBody (E : Env) (fb : Frame) (fileName folderPath : Bytes) (w : World) : Bytes :=
  (chunkLoop E fb 0 (head E.heap w.appends fileName folderPath)
    (w.emit (.upload fileName folderPath))).1.text

theorem head_adds (heap : Nat → Bool) (k : Nat) {fileName folderPath : Bytes} (h₁ : fileName ≠ [])
    (h₂ : folderPath ≠ []) :
    Builder.Adds heap ⟨text "fileName=", k⟩
      (fileName ++ text "&folderPath=" ++ folderPath ++ text "&fileData=") 4
      (head heap k fileName folderPath) :=
  (((Builder.Adds.plus _ h₁).trans (.plus _ (by simp [text]))).trans (.plus _ h₂)).trans
    (.plus _ (by simp [text]))

theorem postedBody_iff (E : Env) (fb : Frame) {fileName folderPath : Bytes} (h₁ : fileName ≠ [])
    (h₂ : folderPath ≠ []) (w : World) :
    postedBody E fb fileName folderPath w = fullBody fileName folderPath fb.buf ↔
      ∀ k, w.appends ≤ k → k < w.appends + bodyAppends fb.len → E.heap k = true := by
  have hhead := head_adds E.heap w.appends h₁ h₂
  have hall := (hhead.trans (chunkLoop_adds E fb 0 _ (w.emit (.upload fileName folderPath)))).text_iff
  simp only [List.drop_zero, Nat.sub_zero] at hall
  rw [postedBody, bodyAppends, ← hall, fullBody, formBody]
  simp only [List.append_assoc]

/-- When the appends of the head succeed, the body is a form with a part of the encoding. -/
theorem postedBody_form (E : Env) (fb : Frame) {fileName folderPath : Bytes} (h₁ : fileName ≠ [])
    (h₂ : folderPath ≠ []) (w : World)
    (hheap : ∀ k, w.appends ≤ k → k < w.appends + 4 → E.heap k = true) :
    ∃ t, t.Sublist (Base64.encode fb.buf) ∧
      postedBody E fb fileName folderPath w = formBody fileName folderPath t := by
  have hhead := (head_adds E.heap w.appends h₁ h₂).all hheap
  obtain ⟨t, hsub, ht⟩ := chunkLoop_sublist E fb 0 (head E.heap w.appends fileName folderPath)
    (w.emit (.upload fileName folderPath))
  refine ⟨t, hsub, ?_⟩
  rw [postedBody, ht, hhead, formBody]
  simp only [List.append_assoc]

/-! ## What an upload adds to the trace -/

theorem afterChunk_idles (fb : Frame) (processed : Nat) (w : World) :
    Idles w (afterChunk fb processed w) := by
  have hread : Idles w (w.read (some fb)) := (Idles.refl w).congr rfl rfl rfl rfl
  unfold afterChunk
  split
  · exact (hread.progress processed fb.len).delay 10
  · exact hread

theorem chunkLoop_idles (E : Env) (fb : Frame) (processed : Nat) (postData : Builder UInt8)
    (w : World) : Idles w (chunkLoop E fb processed postData w).2 := by
  refine chunkLoop_rule (I := fun _ _ w r => Idles w r.2) ?_ ?_ processed postData w
  · intro _ _ w _
    exact .refl w
  · intro processed postData w r _ ih
    exact (afterChunk_idles fb _ w).trans ih

def postEvents (url postData : Bytes) : List Ev :=
  [.httpBegin url, .httpAddHeader (text "Content-Type") (text "application/x-www-form-urlencoded"),
    .httpPost postData]

/-- What `sendPostData` adds to the trace when it begins with POST number `k`. -/
def sendEvents (E : Env) (k : Nat) (url postData : Bytes) : List Ev :=
  postEvents url postData ++
    if (E.post k).code = 302 then
      .httpEnd :: (postEvents (E.post k).location postData ++
        [.serial (text "Upload Success"), .httpEnd])
    else [.httpEnd]

/-- The code of the last POST, and how many POSTs there are. -/
def lastCode (E : Env) (k : Nat) : Int :=
  if (E.post k).code = 302 then (E.post (k + 1)).code else (E.post k).code

def postCount (E : Env) (k : Nat) : Nat := if (E.post k).code = 302 then 2 else 1

theorem sendPostData_trace (E : Env) (url postData : Bytes) (w : World) :
    (sendPostData E url postData w).2.trace = w.trace ++ sendEvents E w.posts url postData := by
  have hcode : (POST E url postData w).1 = E.post w.posts := rfl
  simp only [sendPostData, sendEvents, hcode]
  split
  · simp [POST, World.emit, postEvents]
  · simp [POST, World.emit, postEvents]

theorem sendPostData_result (E : Env) (url postData : Bytes) (w : World) :
    (sendPostData E url postData w).1 = (lastCode E w.posts == 200) := by
  have hcode : (POST E url postData w).1 = E.post w.posts := rfl
  simp only [sendPostData, lastCode, hcode]
  split
  · rfl
  · rfl

/-- The rest of the world: the POSTs are counted. -/
theorem sendPostData_world (E : Env) (url postData : Bytes) (w : World) :
    (sendPostData E url postData w).2.reads = w.reads ∧
      (sendPostData E url postData w).2.nextCaptureTime = w.nextCaptureTime ∧
      (sendPostData E url postData w).2.posts = w.posts + postCount E w.posts := by
  have hcode : (POST E url postData w).1 = E.post w.posts := rfl
  simp only [sendPostData, postCount, hcode]
  split
  · simp [POST, World.emit]
  · simp [POST, World.emit]

theorem sendEvents_minor (E : Env) (k : Nat) (url postData : Bytes) :
    ∀ e ∈ sendEvents E k url postData, e.minor postData := by
  unfold sendEvents
  split
  · simp [postEvents, Ev.minor]
  · simp [postEvents, Ev.minor]

/-- An upload reports its call, builds its body while time passes, and posts it. -/
theorem upload_trace (E : Env) (fb : Frame) (fileName folderPath : Bytes) (w : World) :
    ∃ w', Idles (w.emit (.upload fileName folderPath)) w' ∧ w'.trace =
        (chunkLoop E fb 0 (head E.heap w.appends fileName folderPath)
          (w.emit (.upload fileName folderPath))).2.trace ∧
      uploadToGoogleDrive E fb fileName folderPath w =
        sendPostData E GOOGLE_SCRIPT_URL (postedBody E fb fileName folderPath w) w' := by
  let r := chunkLoop E fb 0 (head E.heap w.appends fileName folderPath)
    (w.emit (.upload fileName folderPath))
  have hloop : Idles (w.emit (.upload fileName folderPath)) r.2 := chunkLoop_idles E fb 0 _ _
  exact ⟨{ r.2 with appends := r.1.appends }, hloop.congr rfl rfl rfl rfl, rfl, rfl⟩

/-- After the call an upload adds minor events, with the body it has built. -/
theorem upload_extends (E : Env) (fb : Frame) (fileName folderPath : Bytes) (w : World) :
    Extends (Ev.minor (postedBody E fb fileName folderPath w))
      (w.emit (.upload fileName folderPath)) (uploadToGoogleDrive E fb fileName folderPath w).2 := by
  obtain ⟨w', hidle, -, he⟩ := upload_trace E fb fileName folderPath w
  obtain ⟨hreads, hnext, -⟩ :=
    sendPostData_world E GOOGLE_SCRIPT_URL (postedBody E fb fileName folderPath w) w'
  rw [he]
  exact (hidle.minor _).trans ⟨⟨_, sendPostData_trace E _ _ w', sendEvents_minor E _ _ _⟩,
    Nat.le_of_eq (by rw [hreads]), hnext⟩

theorem upload_posts (E : Env) (fb : Frame) (fileName folderPath : Bytes) (w : World) :
    ∃ new, (uploadToGoogleDrive E fb fileName folderPath w).2.trace = w.trace ++ new ∧
      .httpPost (postedBody E fb fileName folderPath w) ∈ new ∧
      ∀ body, .httpPost body ∈ new → body = postedBody E fb fileName folderPath w := by
  obtain ⟨w', hidle, -, he⟩ := upload_trace E fb fileName folderPath w
  obtain ⟨new, htr, hnew⟩ := hidle.trace
  have htr' : w'.trace = w.trace ++ .upload fileName folderPath :: new := by
    rw [htr]
    exact List.append_assoc _ _ _
  refine ⟨.upload fileName folderPath :: new ++ sendEvents E w'.posts GOOGLE_SCRIPT_URL
    (postedBody E fb fileName folderPath w), ?_, ?_, ?_⟩
  · rw [he, sendPostData_trace, htr', List.append_assoc]
  · exact List.mem_append_right _ (by simp [sendEvents, postEvents])
  · intro body hbody
    rcases List.mem_append.mp hbody with hbody | hbody
    · rcases List.mem_cons.mp hbody with hbody | hbody
      · cases hbody
      · exact (hnew _ hbody).elim
    · exact sendEvents_minor E _ _ _ _ hbody

end Timelapse
end TimerCam

import TimerCam.Http.Client
import TimerCam.Timelapse.Encode
import Mathlib.Data.List.Basic

/-!
# Http.Encoders

`b64_encode`, `sendBasicAuth` and `URLEncoder.encode` of the library `ArduinoHttpClient`.

* `b64_encode_eq`           : with the room that it asks for, the encoding of RFC 4648 is stored.
* `b64_encode_within_iff`   : that room is too little, and when it is.
* `basicAuth_read_back_iff` : the server gets user and password back, unless the user has a colon.
* `urlEncode_read_back_iff` : a form decoder gets the text back, if there was memory for all of it.
-/

namespace TimerCam
namespace Http

open Octets

/-! ## b64.cpp -/

/-- An octet that is stored, and where. -/
abbrev Store := UInt8 × Nat

def b64_dictionary : Bytes :=
  text "ABCDEFGHIJKLMNOPQRSTUVWXYZabcdefghijklmnopqrstuvwxyz0123456789+/"

def dictionaryAt (i : UInt8) : UInt8 := b64_dictionary.getD i.toNat 0

/-- What is returned, and the stores, with `aOutput` as the address of the output. The input is taken to
be shorter than `2 ^ 28` octets: `aInputLen*8` is an `int`. -/
def b64_encode (aInput : Bytes) (aOutput : Nat) (aOutputLen : Int) : Nat × List Store :=
  let inputAt := fun i => aInput.getD i 0
  if aOutputLen < (aInput.length * 8 / 6 : Nat) then (aInput.length * 8 / 6, [])
  else
    ((aInput.length + 2) / 3 * 4,
      if aInput.length = 3 then
        [(dictionaryAt (inputAt 0 >>> 2), aOutput),
          (dictionaryAt (((inputAt 0 &&& 0x3) <<< 4) ||| (inputAt 1 >>> 4)), aOutput + 1),
          (dictionaryAt (((inputAt 1 &&& 0x0f) <<< 2) ||| (inputAt 2 >>> 6)), aOutput + 2),
          (dictionaryAt (inputAt 2 &&& 0x3f), aOutput + 3)]
      else if aInput.length = 2 then
        [(dictionaryAt (inputAt 0 >>> 2), aOutput),
          (dictionaryAt (((inputAt 0 &&& 0x3) <<< 4) ||| (inputAt 1 >>> 4)), aOutput + 1),
          (dictionaryAt ((inputAt 1 &&& 0x0f) <<< 2), aOutput + 2), (61, aOutput + 3)]
      else if aInput.length = 1 then
        [(dictionaryAt (inputAt 0 >>> 2), aOutput), (dictionaryAt ((inputAt 0 &&& 0x3) <<< 4), aOutput + 1),
          (61, aOutput + 2), (61, aOutput + 3)]
      else
        let i := aInput.length / 3
        ((List.range i).attach.map fun i =>
            (b64_encode ((aInput.drop (i.1 * 3)).take 3) (aOutput + i.1 * 4) 4).2).flatten ++
          if 0 < aInput.length % 3 then
            (b64_encode (aInput.drop (i * 3)) (aOutput + i * 4) (aOutputLen - (i * 4 : Nat))).2
          else [])
termination_by aInput.length
decreasing_by
  · have hi := List.mem_range.mp i.2
    simp only [List.length_take, List.length_drop]
    omega
  · simp only [List.length_drop]
    omega

/-! ## What is stored -/

theorem or_03_shl (a b : UInt8) :
    (((a &&& 0x3) <<< 4) ||| (b >>> 4)).toNat = a.toNat % 4 * 16 + b.toNat / 16 := by
  have hb := b.toNat_lt
  have hor : ∀ n, n < 4 → ∀ m, m < 16 → (n * 16) ||| m = n * 16 + m := by decide
  have hshl : ((a &&& 0x3) <<< 4).toNat = a.toNat % 4 * 16 := Timelapse.and_03_shl a
  have hshr : (b >>> 4).toNat = b.toNat / 16 := by
    rw [UInt8.toNat_shiftRight, Nat.shiftRight_eq_div_pow]
    rfl
  rw [UInt8.toNat_or, hshl, hshr, hor _ (Nat.mod_lt _ (by omega)) _ (by omega)]

theorem or_0f_shl (b c : UInt8) :
    (((b &&& 0x0f) <<< 2) ||| (c >>> 6)).toNat = b.toNat % 16 * 4 + c.toNat / 64 := by
  have hc := c.toNat_lt
  have hor : ∀ n, n < 16 → ∀ m, m < 4 → (n * 4) ||| m = n * 4 + m := by decide
  have hshl : ((b &&& 0x0f) <<< 2).toNat = b.toNat % 16 * 4 := Timelapse.and_0f_shl b
  have hshr : (c >>> 6).toNat = c.toNat / 64 := by
    rw [UInt8.toNat_shiftRight, Nat.shiftRight_eq_div_pow]
    rfl
  rw [UInt8.toNat_or, hshl, hshr, hor _ (Nat.mod_lt _ (by omega)) _ (by omega)]

theorem shr_2 (a : UInt8) : (a >>> 2).toNat = a.toNat / 4 := by
  rw [UInt8.toNat_shiftRight, Nat.shiftRight_eq_div_pow]
  rfl

theorem dictionaryAt_eq {i : UInt8} {v : Nat} (h : i.toNat = v) :
    dictionaryAt i = Base64.char v := by
  rw [dictionaryAt, h]
  rfl

/-- Up to three octets. -/
theorem b64_encode_group {aInput : Bytes} (hpos : 0 < aInput.length) (hle : aInput.length ≤ 3)
    (aOutput : Nat) {aOutputLen : Int} (hroom : (aInput.length * 8 / 6 : Nat) ≤ aOutputLen) :
    b64_encode aInput aOutput aOutputLen = (4, (Base64.encode aInput).zipIdx aOutput) := by
  rw [b64_encode, if_neg (by omega)]
  rcases aInput with _ | ⟨a, _ | ⟨b, _ | ⟨c, _ | ⟨d, aInput⟩⟩⟩⟩
  · simp at hpos
  · simp [Base64.encode, List.zipIdx_cons, dictionaryAt_eq (shr_2 a),
      dictionaryAt_eq (Timelapse.and_03_shl a), Base64.padding]
  · simp [Base64.encode, List.zipIdx_cons, dictionaryAt_eq (shr_2 a),
      dictionaryAt_eq (or_03_shl a b), dictionaryAt_eq (Timelapse.and_0f_shl b), Base64.padding]
  · simp [Base64.encode, Base64.encodeGroup, List.zipIdx_cons, dictionaryAt_eq (shr_2 a),
      dictionaryAt_eq (or_03_shl a b), dictionaryAt_eq (or_0f_shl b c),
      dictionaryAt_eq (Timelapse.and_3f c)]
  · simp only [List.length_cons] at hle
    omega

/-- The loop, up to group `k`. -/
theorem b64_encode_groups {aInput : Bytes} (aOutput : Nat) {k : Nat} (hk : 3 * k ≤ aInput.length) :
    ((List.range k).map fun i =>
      (b64_encode ((aInput.drop (i * 3)).take 3) (aOutput + i * 4) 4).2).flatten =
      (Base64.encode (aInput.take (3 * k))).zipIdx aOutput := by
  induction k with
  | zero => rfl
  | succ k ih =>
    have hlen : ((aInput.drop (k * 3)).take 3).length = 3 := by
      rw [List.length_take, List.length_drop]
      omega
    have hbefore : (aInput.take (3 * k)).length = 3 * k := List.length_take_of_le (by omega)
    have hsplit : aInput.take (3 * (k + 1)) =
        aInput.take (3 * k) ++ (aInput.drop (k * 3)).take 3 := by
      rw [Nat.mul_succ, List.take_add, Nat.mul_comm k 3]
    rw [List.range_succ, List.map_append, List.flatten_append, ih (by omega), List.map_singleton,
      List.flatten_singleton, b64_encode_group (by omega) (by omega) _ (by rw [hlen]; decide), hsplit,
      Base64.encode_append (by omega), List.zipIdx_append, Base64.encode_length, hbefore,
      show aOutput + k * 4 = aOutput + 4 * ((3 * k + 2) / 3) by omega]

/-- With as much room as `b64_encode` asks for, the whole encoding is stored. -/
theorem b64_encode_eq (aInput : Bytes) (aOutput : Nat) {aOutputLen : Int}
    (hroom : (aInput.length * 8 / 6 : Nat) ≤ aOutputLen) :
    b64_encode aInput aOutput aOutputLen =
      (4 * ((aInput.length + 2) / 3), (Base64.encode aInput).zipIdx aOutput) := by
  by_cases hgroup : 0 < aInput.length ∧ aInput.length ≤ 3
  · rw [b64_encode_group hgroup.1 hgroup.2 aOutput hroom]
    congr 1
    omega
  · have hmap := @b64_encode_groups aInput aOutput (aInput.length / 3) (by omega)
    have hbefore : (aInput.take (3 * (aInput.length / 3))).length = 3 * (aInput.length / 3) :=
      List.length_take_of_le (by omega)
    rw [b64_encode, if_neg (by omega), if_neg (by omega), if_neg (by omega), if_neg (by omega)]
    refine Prod.ext (Nat.mul_comm _ _) ?_
    simp only
    rw [List.attach_map_val (f := fun i =>
      (b64_encode ((aInput.drop (i * 3)).take 3) (aOutput + i * 4) 4).2), hmap]
    by_cases htail : 0 < aInput.length % 3
    · have hlen : (aInput.drop (aInput.length / 3 * 3)).length = aInput.length % 3 := by
        rw [List.length_drop]
        omega
      have henc : Base64.encode aInput = Base64.encode (aInput.take (3 * (aInput.length / 3))) ++
          Base64.encode (aInput.drop (aInput.length / 3 * 3)) := by
        rw [← Base64.encode_append (by omega), Nat.mul_comm _ 3, List.take_append_drop]
      rw [if_pos htail, b64_encode_group (by omega) (by omega) _ (by rw [hlen]; omega), henc,
        List.zipIdx_append, Base64.encode_length, hbefore,
        show aOutput + aInput.length / 3 * 4 =
          aOutput + 4 * ((3 * (aInput.length / 3) + 2) / 3) by omega]
    · rw [if_neg htail, List.append_nil, List.take_of_length_le (by omega)]

/-- The check asks for less room than the padding needs: the stores stay in the output exactly when
it is refused or takes whole groups. Unless it is refused, all groups are stored. -/
theorem b64_encode_within_iff (aInput : Bytes) (aOutput aOutputLen : Nat) :
    ((∀ s ∈ (b64_encode aInput aOutput aOutputLen).2, s.2 < aOutput + aOutputLen) ↔
      aOutputLen < aInput.length * 8 / 6 ∨ 4 * ((aInput.length + 2) / 3) ≤ aOutputLen) ∧
    (b64_encode aInput aOutput aOutputLen).2.map Prod.snd =
      if aOutputLen < aInput.length * 8 / 6 then []
      else List.range' aOutput (4 * ((aInput.length + 2) / 3)) := by
  by_cases hroom : aOutputLen < aInput.length * 8 / 6
  · have hnone : (b64_encode aInput aOutput aOutputLen).2 = [] := by
      rw [b64_encode, if_pos (by omega)]
    rw [hnone, if_pos hroom]
    exact ⟨iff_of_true (fun _ hs => absurd hs List.not_mem_nil) (.inl hroom), rfl⟩
  · rw [b64_encode_eq aInput aOutput (by omega), if_neg hroom]
    refine ⟨?_, by rw [List.zipIdx_map_snd, Base64.encode_length]⟩
    constructor
    · intro hall
      by_contra hshort
      have hlen := Base64.encode_length aInput
      have hlast : aOutputLen < (Base64.encode aInput).length := by omega
      have := hall ((Base64.encode aInput)[aOutputLen], aOutput + aOutputLen)
        (List.mem_zipIdx_iff_le_and_getElem?_sub.mpr ⟨by simp, by simp [hlast]⟩)
      simp at this
    · rintro hfits ⟨c, i⟩ hs
      have := (List.mem_zipIdx hs).2.1
      have hlen := Base64.encode_length aInput
      simp only
      omega

/-! ## sendBasicAuth -/

/-- Octet `i` of `aUser:aPassword`. -/
def authOctet (aUser aPassword : Bytes) (i : Nat) : UInt8 :=
  if i < aUser.length then aUser.getD i 0
  else if i = aUser.length then 58
  else aPassword.getD (i - (aUser.length + 1)) 0

def storeAll (output : Vector UInt8 5) (ss : List Store) : Vector UInt8 5 :=
  ss.foldl (fun output s => output.setIfInBounds s.2 s.1) output

/-- The string that ends at the first NUL. -/
def cString (s : Bytes) : Bytes := s.takeWhile (· ≠ 0)

/-- What the loop of `sendBasicAuth` keeps: `input` up to `inputOffset`, and `output`. -/
structure AuthLoop where
  input : Bytes
  output : Vector UInt8 5
  client : HttpClient

def authStep (aUser aPassword : Bytes) (l : AuthLoop) (i : Nat) : AuthLoop :=
  let input := l.input ++ [authOctet aUser aPassword i]
  if input.length = 3 ∨ i = aUser.length + aPassword.length then
    let output := (storeAll l.output (b64_encode input 0 4).2).set 4 0
    { input := [], output := output, client := l.client.print (cString output.toList) }
  else { l with input := input }

/-- `output` is what the array holds before it is first written. -/
def HttpClient.sendBasicAuth (output : Vector UInt8 5) (aUser aPassword : Bytes) (h : HttpClient) :
    HttpClient :=
  ((List.range (aUser.length + 1 + aPassword.length)).foldl (authStep aUser aPassword)
    { input := [], output := output, client := h.print (text "Authorization: Basic ") }).client.println
    []

def credentials (aUser aPassword : Bytes) : Bytes := aUser ++ 58 :: aPassword

theorem authOctet_eq {aUser aPassword : Bytes} {i : Nat} {c : UInt8} {rest : Bytes}
    (h : (credentials aUser aPassword).drop i = c :: rest) : authOctet aUser aPassword i = c := by
  have hget : (credentials aUser aPassword)[i]? = some c := by
    rw [← List.head?_drop, h]
    rfl
  unfold authOctet
  unfold credentials at hget
  split
  · rename_i hlt
    rw [List.getElem?_append_left hlt] at hget
    rw [List.getD_eq_getElem?_getD, hget]
    rfl
  · rename_i hge
    rw [List.getElem?_append_right (by omega)] at hget
    split
    · rename_i heq
      rw [heq, Nat.sub_self] at hget
      exact Option.some.inj hget
    · obtain ⟨k, hk⟩ : ∃ k, i - aUser.length = k + 1 := ⟨i - aUser.length - 1, by omega⟩
      rw [hk, List.getElem?_cons_succ] at hget
      rw [List.getD_eq_getElem?_getD, show i - (aUser.length + 1) = k by omega, hget]
      rfl

/-- The four characters that were stored are the string. -/
theorem cString_group {input : Bytes} (hpos : 0 < input.length) (hle : input.length ≤ 3)
    (output : Vector UInt8 5) :
    cString ((storeAll output (b64_encode input 0 4).2).set 4 0).toList = Base64.encode input := by
  have hlen : (Base64.encode input).length = 4 := by
    rw [Base64.encode_length]
    omega
  have hmem := fun c (hc : c ∈ Base64.encode input) => Base64.mem_encode hc
  rw [b64_encode_group hpos hle 0 (by omega)]
  generalize Base64.encode input = s at hlen hmem
  have hzero : ∀ c ∈ s, c ≠ 0 := by
    rintro c hc rfl
    rcases hmem 0 hc with h | h
    · exact absurd h (by decide)
    · exact absurd h (by decide)
  obtain ⟨a, b, c, d, rfl⟩ := List.length_eq_four.mp hlen
  obtain ⟨⟨l⟩, hl⟩ := output
  obtain ⟨x₀, t, rfl⟩ := List.exists_cons_of_length_eq_add_one hl
  obtain ⟨x₁, x₂, x₃, x₄, rfl⟩ := List.length_eq_four.mp (Nat.succ.inj hl)
  have hstored : ((storeAll ⟨⟨[x₀, x₁, x₂, x₃, x₄]⟩, hl⟩ ([a, b, c, d].zipIdx 0)).set 4 0).toList =
      [a, b, c, d, 0] := rfl
  have hall : ∀ x ∈ [a, b, c, d], decide (x ≠ 0) = true := by
    intro x hx
    exact decide_eq_true (hzero x hx)
  simp only [hstored, cString]
  exact List.takeWhile_append_of_pos hall

/-- A full group, or what there is at the end, is sent. -/
theorem authStep_sends {aUser aPassword : Bytes} {l : AuthLoop} (hlt : l.input.length < 3) {i : Nat}
    (h : l.input.length + 1 = 3 ∨ i = aUser.length + aPassword.length) :
    (authStep aUser aPassword l i).input = [] ∧ (authStep aUser aPassword l i).client =
      l.client.print (Base64.encode (l.input ++ [authOctet aUser aPassword i])) := by
  have hlen : (l.input ++ [authOctet aUser aPassword i]).length = l.input.length + 1 := by simp
  rw [authStep, if_pos (by rwa [hlen])]
  exact ⟨rfl, congrArg (fun s => l.client.print s) (cString_group (by omega) (by omega) l.output)⟩

/-- The loop from octet `i` on, where `rest` is what there is from there and `input` what is kept. -/
theorem authLoop_eq {aUser aPassword : Bytes} {rest : Bytes} {i : Nat} {l : AuthLoop}
    (hrest : (credentials aUser aPassword).drop i = rest) (hne : rest ≠ [])
    (hlt : l.input.length < 3) :
    ((List.range' i rest.length).foldl (authStep aUser aPassword) l).client =
      l.client.print (Base64.encode (l.input ++ rest)) := by
  induction rest generalizing i l with
  | nil => exact absurd rfl hne
  | cons c rest ih =>
    have hi : i + (rest.length + 1) = aUser.length + aPassword.length + 1 := by
      have := congrArg List.length hrest
      simp only [credentials, List.length_drop, List.length_append, List.length_cons] at this
      omega
    have hnext : (credentials aUser aPassword).drop (i + 1) = rest := by
      rw [← List.drop_drop, hrest]
      rfl
    have hlen : (l.input ++ [c]).length = l.input.length + 1 := by simp
    have hcons : (List.range' i (c :: rest).length).foldl (authStep aUser aPassword) l =
        (List.range' (i + 1) rest.length).foldl (authStep aUser aPassword)
          (authStep aUser aPassword l i) := by
      rw [List.length_cons, List.range'_succ, List.foldl_cons]
    rw [hcons]
    cases rest with
    | nil =>
      simp only [List.length_nil] at hi
      have hlast : i = aUser.length + aPassword.length := by omega
      have hstep := (authStep_sends hlt (.inr hlast)).2
      rw [authOctet_eq hrest] at hstep
      exact hstep
    | cons d rest =>
      by_cases hgroup : l.input.length + 1 = 3
      · obtain ⟨hempty, hstep⟩ := @authStep_sends aUser aPassword l hlt i (.inl hgroup)
        rw [ih hnext (List.cons_ne_nil d rest) (by rw [hempty]; exact Nat.zero_lt_succ 2), hstep,
          hempty, authOctet_eq hrest]
        simp only [HttpClient.print, List.nil_append, List.append_assoc]
        rw [← Base64.encode_append (by rw [hlen, hgroup]), List.append_assoc, List.singleton_append]
      · have hstep : authStep aUser aPassword l i = { l with input := l.input ++ [c] } := by
          simp only [List.length_cons] at hi
          rw [authStep, authOctet_eq hrest, if_neg (by rw [hlen]; omega)]
        rw [hstep, ih hnext (List.cons_ne_nil d rest) (by simp only [hlen]; omega),
          List.append_assoc, List.singleton_append]

theorem sendBasicAuth_eq (output : Vector UInt8 5) (aUser aPassword : Bytes) (h : HttpClient) :
    h.sendBasicAuth output aUser aPassword =
      h.print (text "Authorization: Basic " ++ Base64.encode (credentials aUser aPassword) ++ crlf) := by
  have hlen : aUser.length + 1 + aPassword.length = (credentials aUser aPassword).length := by
    simp only [credentials, List.length_append, List.length_cons]
    omega
  have hne : credentials aUser aPassword ≠ [] := by simp [credentials]
  rw [HttpClient.sendBasicAuth, hlen, List.range_eq_range',
    @authLoop_eq aUser aPassword (credentials aUser aPassword) 0
      ⟨[], output, h.print (text "Authorization: Basic ")⟩ rfl hne (Nat.zero_lt_succ 2)]
  simp [HttpClient.println, HttpClient.print]

/-- A server's reading of the header: what is before the first colon, and what is behind it. -/
def userAndPassword (line : Bytes) : Option (Bytes × Bytes) :=
  if (text "Authorization: Basic ").isPrefixOf line then
    (Base64.decode (line.drop (text "Authorization: Basic ").length)).map fun s =>
      (s.takeWhile (· ≠ 58), (s.dropWhile (· ≠ 58)).tail)
  else none

/-- The line that `sendBasicAuth` sends is read as the user and the password that were given exactly
when the user has no colon. -/
theorem basicAuth_read_back_iff (output : Vector UInt8 5) (aUser aPassword : Bytes)
    (h : HttpClient) :
    (∃ line, (h.sendBasicAuth output aUser aPassword).tx = h.tx ++ line ++ crlf ∧
      userAndPassword line = some (aUser, aPassword)) ↔ 58 ∉ aUser := by
  have hread : userAndPassword
      (text "Authorization: Basic " ++ Base64.encode (credentials aUser aPassword)) =
      some ((credentials aUser aPassword).takeWhile (· ≠ 58),
        ((credentials aUser aPassword).dropWhile (· ≠ 58)).tail) := by
    have hprefix : (text "Authorization: Basic ").isPrefixOf
        (text "Authorization: Basic " ++ Base64.encode (credentials aUser aPassword)) = true :=
      List.isPrefixOf_iff_prefix.mpr (List.prefix_append _ _)
    rw [userAndPassword, if_pos hprefix, List.drop_left, Base64.decode_encode]
    rfl
  have hsent : (h.sendBasicAuth output aUser aPassword).tx = h.tx ++
      (text "Authorization: Basic " ++ Base64.encode (credentials aUser aPassword)) ++ crlf := by
    rw [sendBasicAuth_eq]
    simp [HttpClient.print]
  constructor
  · rintro ⟨line, htx, hline⟩ hcolon
    rw [hsent] at htx
    have hsame := List.append_cancel_left (List.append_cancel_right htx)
    rw [← hsame, hread] at hline
    have huser := (Prod.mk.inj (Option.some.inj hline)).1
    rw [← huser] at hcolon
    have := List.mem_takeWhile_imp hcolon
    simp at this
  · intro hcolon
    refine ⟨_, hsent, ?_⟩
    have hall : ∀ c ∈ aUser, decide (c ≠ 58) = true := by
      intro c hc
      refine decide_eq_true ?_
      rintro rfl
      exact hcolon hc
    rw [hread, credentials, List.takeWhile_append_of_pos hall, List.dropWhile_append_of_pos hall]
    simp

/-! ## URLEncoder.cpp -/

def HEX_DIGIT_MAPPER : Bytes := text "0123456789ABCDEF"

def isAlphaNumeric (c : UInt8) : Bool :=
  (48 ≤ c.toNat && c.toNat ≤ 57) || (65 ≤ c.toNat && c.toNat ≤ 90) ||
    (97 ≤ c.toNat && c.toNat ≤ 122)

/-- What is appended for `c`, in one append. -/
def urlPiece (c : UInt8) : Bytes :=
  if isAlphaNumeric c ∨ c = 45 ∨ c = 46 ∨ c = 95 ∨ c = 126 then [c]
  else [37, HEX_DIGIT_MAPPER.getD ((c >>> 4) &&& 0xf).toNat 0,
    HEX_DIGIT_MAPPER.getD (c &&& 0x0f).toNat 0]

/-- `URLEncoderClass::encode`, whose appends are numbered from `k` on. -/
def urlEncode (heap : Nat → Bool) (k : Nat) (str : Bytes) : Builder UInt8 :=
  str.foldl (fun encoded c => encoded.append heap (urlPiece c)) ⟨[], k⟩

theorem toNat_nibbles (c : UInt8) :
    ((c >>> 4) &&& 0xf).toNat = c.toNat / 16 ∧ (c &&& 0x0f).toNat = c.toNat % 16 := by
  have hc := c.toNat_lt
  have hmask : ∀ x : UInt8, (x &&& 0xf).toNat = x.toNat % 16 := by
    intro x
    rw [UInt8.toNat_and]
    exact Nat.and_two_pow_sub_one_eq_mod x.toNat 4
  have hshr : (c >>> 4).toNat = c.toNat / 16 := by
    rw [UInt8.toNat_shiftRight, Nat.shiftRight_eq_div_pow]
    rfl
  refine ⟨?_, hmask c⟩
  rw [hmask, hshr]
  omega

theorem hex?_mapper : ∀ n, n < 16 → UrlForm.hex? (HEX_DIGIT_MAPPER.getD n 0) = some n := by
  decide

theorem mapper_ne_plus : ∀ n, n < 16 → HEX_DIGIT_MAPPER.getD n 0 ≠ UrlForm.plus := by decide

theorem unescape_urlPiece (c : UInt8) (s : Bytes) :
    UrlForm.unescape (urlPiece c ++ s) = c :: UrlForm.unescape s := by
  have hc := c.toNat_lt
  obtain ⟨hhigh, hlow⟩ := toNat_nibbles c
  unfold urlPiece
  split
  · rename_i hplain
    refine UrlForm.unescape_cons ?_ s
    rintro rfl
    exact absurd hplain (by decide)
  · have hsplit : 16 * (c.toNat / 16) + c.toNat % 16 = c.toNat := by omega
    rw [hhigh, hlow]
    refine (UrlForm.unescape_percent (hex?_mapper _ (by omega)) (hex?_mapper _ (by omega)) s).trans ?_
    rw [hsplit, UInt8.ofNat_toNat]

theorem plus_notMem_urlPiece (c : UInt8) : UrlForm.plus ∉ urlPiece c := by
  have hc := c.toNat_lt
  obtain ⟨hhigh, hlow⟩ := toNat_nibbles c
  intro h
  unfold urlPiece at h
  split at h
  · rename_i hplain
    rw [← List.mem_singleton.mp h] at hplain
    exact absurd hplain (by decide)
  · rw [hhigh, hlow] at h
    simp only [List.mem_cons, List.not_mem_nil, or_false] at h
    rcases h with h | h | h
    · exact absurd h (by decide)
    · exact mapper_ne_plus _ (by omega) h.symm
    · exact mapper_ne_plus _ (by omega) h.symm

/-- Pieces are read back as the octets that they stand for. -/
theorem component_pieces (str : Bytes) : UrlForm.component (str.flatMap urlPiece) = str := by
  have hplus : UrlForm.plus ∉ str.flatMap urlPiece := by
    intro h
    obtain ⟨c, -, hc⟩ := List.mem_flatMap.mp h
    exact plus_notMem_urlPiece c hc
  rw [UrlForm.component, UrlForm.plusToSpace_eq hplus]
  induction str with
  | nil => rfl
  | cons c str ih =>
    have hrest : UrlForm.plus ∉ str.flatMap urlPiece := by
      intro h
      rw [List.flatMap_cons] at hplus
      exact hplus (List.mem_append_right _ h)
    rw [List.flatMap_cons, unescape_urlPiece, ih hrest]

theorem urlPiece_ne_nil (c : UInt8) : urlPiece c ≠ [] := by
  unfold urlPiece
  split
  · exact List.cons_ne_nil _ _
  · exact List.cons_ne_nil _ _

section Appends

variable {heap : Nat → Bool}

theorem urlEncode_adds (str : Bytes) (b : Builder UInt8) :
    Builder.Adds heap b (str.flatMap urlPiece) str.length
      (str.foldl (fun encoded c => encoded.append heap (urlPiece c)) b) := by
  induction str generalizing b with
  | nil => exact .refl b
  | cons c str ih =>
    have hc : Builder.Adds heap b (urlPiece c) 1 (b.append heap (urlPiece c)) :=
      .append b (urlPiece_ne_nil c)
    have := hc.trans (ih (b.append heap (urlPiece c)))
    rw [Nat.add_comm] at this
    exact this

/-- What is there are the pieces of some of the octets. -/
theorem urlEncode_sublist (str : Bytes) (b : Builder UInt8) :
    ∃ t : Bytes, (str.foldl (fun encoded c => encoded.append heap (urlPiece c)) b).text =
      b.text ++ t.flatMap urlPiece := by
  induction str generalizing b with
  | nil => exact ⟨[], (List.append_nil _).symm⟩
  | cons c str ih =>
    obtain ⟨t, ht⟩ := ih (b.append heap (urlPiece c))
    cases hh : heap b.appends with
    | true =>
      refine ⟨c :: t, ?_⟩
      rw [List.foldl_cons, ht]
      simp [Builder.append, hh]
    | false =>
      refine ⟨t, ?_⟩
      rw [List.foldl_cons, ht]
      simp [Builder.append, hh]

/-- Whatever the text is, a form decoder gets it back exactly when every append found memory. -/
theorem urlEncode_read_back_iff (k : Nat) (str : Bytes) :
    UrlForm.component (urlEncode heap k str).text = str ↔
      ∀ i, k ≤ i → i < k + str.length → heap i = true := by
  have hadds := @urlEncode_adds heap str ⟨[], k⟩
  obtain ⟨t, ht⟩ := @urlEncode_sublist heap str ⟨[], k⟩
  rw [← hadds.text_iff, ht, urlEncode, ht]
  constructor
  · intro h
    rw [List.nil_append, component_pieces] at h
    rw [h]
  · intro h
    rw [h]
    exact component_pieces str

end Appends

end Http
end TimerCam

import TimerCam.Http.Client

/-!
# Http.Response

The status line and the header block, however slowly they come in.

* `statusLines_infos`    : bare informational lines are skipped.
* `statusLines_final`    : the code after them is read.
* `statusLines_invalid`  : anything but a status line is an error.
* `skipResponseHeaders_read` : the header block is read, and what it says of the body.
-/

namespace TimerCam
namespace Http
namespace HttpClient

open Octets Wire

/-! ## Numbers -/

theorem int32_of_lt {n : Nat} (h : n < 2 ^ 31) : int32 n = n := by
  rw [int32, Int.bmod_def]
  split <;> omega

theorem int32_lt (x : Int) : int32 x < 2 ^ 31 := by
  rw [int32, Int.bmod_def]
  split <;> omega

/-- The number that the digits `s` write after `acc`. -/
def digitsValue (acc : Nat) (s : Bytes) : Nat := s.foldl (fun n c => n * 10 + (digit? c).getD 0) acc

theorem le_digitsValue (acc : Nat) (s : Bytes) : acc ≤ digitsValue acc s := by
  induction s generalizing acc with
  | nil => exact Nat.le_refl _
  | cons c s ih =>
    refine Nat.le_trans ?_ (ih (acc * 10 + (digit? c).getD 0))
    omega

theorem digitsValue_append (acc : Nat) (s t : Bytes) :
    digitsValue acc (s ++ t) = digitsValue (digitsValue acc s) t := List.foldl_append

theorem digitsValue_decimal (n : Nat) : digitsValue 0 (decimal n) = n := by
  have hread : ∀ ds : List Nat, (∀ d ∈ ds, d < 10) →
      digitsValue 0 (ds.reverse.map digit) = Nat.ofDigits 10 ds := by
    intro ds
    induction ds with
    | nil => exact fun _ => rfl
    | cons d ds ih =>
      intro hds
      have hd : digit? (digit d) = some d := digit?_digit (hds d (List.mem_cons_self ..))
      have ih := ih fun e he => hds e (List.mem_cons_of_mem _ he)
      rw [List.reverse_cons, List.map_append, digitsValue_append, ih, Nat.ofDigits_cons]
      simp only [digitsValue, List.map_cons, List.map_nil, List.foldl_cons, List.foldl_nil, hd,
        Option.getD_some]
      omega
  by_cases hn : n = 0
  · subst hn
    rfl
  · rw [decimal, if_neg hn, hread _ fun d hd => Nat.digits_lt_base (by omega) hd, Nat.ofDigits_digits]

/-! ## The status line -/

/-- A status line: `tail` is what follows the code, up to the line feed. -/
structure StatusText where
  major : UInt8
  minor : UInt8
  code : Nat
  tail : Bytes

structure StatusText.Ok (l : StatusText) : Prop where
  major : l.major ≠ 10
  minor : l.minor ≠ 10
  code : l.code < 2 ^ 31
  tail : l.tail ≠ []
  after : ∀ c ∈ l.tail.head?, digit? c = none
  line : 10 ∉ l.tail

def StatusText.line (l : StatusText) : Bytes :=
  text "HTTP/" ++ [l.major, 46, l.minor, 32] ++ (decimal l.code ++ (l.tail ++ [10]))

abbrev StatusTakes := Takes statusStep statusOver

theorem status_version {l : StatusText} (h : l.Ok) :
    StatusTakes {} (text "HTTP/" ++ [l.major, 46, l.minor, 32])
      { iState := .eReadingStatusCode, statusPtr := [], c := 32 } := by
  have hver : ∀ l' : StatusLine, l'.invalid = false → l'.c = l.major ∨ l'.c = l.minor →
      statusOver l' = false := by
    intro l' hvalid hc
    rcases hc with hc | hc
    · simp [statusOver, hvalid, hc, h.major]
    · simp [statusOver, hvalid, hc, h.minor]
  refine .cons rfl (.cons rfl (.cons rfl (.cons rfl (.cons rfl (.cons rfl ?_)))))
  refine .cons (hver _ rfl (.inl rfl)) (.cons rfl (.cons (hver _ rfl (.inr rfl)) ?_))
  exact .nil

/-- The digits of the code, while the number fits. -/
theorem status_digits {l : StatusLine} {s : Bytes} {n : Nat} (hs : ∀ c ∈ s, ∃ d, digit? c = some d)
    (hstate : l.iState = .eReadingStatusCode) (hc : statusOver l = false) (hn : l.iStatusCode = n)
    (hlt : digitsValue n s < 2 ^ 31) :
    ∃ c, StatusTakes l s { l with iStatusCode := digitsValue n s, c := c } ∧
      statusOver { l with iStatusCode := digitsValue n s, c := c } = false := by
  induction s generalizing l n with
  | nil =>
    have hsame : (digitsValue n [] : Int) = l.iStatusCode := hn.symm
    rw [hsame]
    exact ⟨l.c, .nil, hc⟩
  | cons x s ih =>
    obtain ⟨d, hd⟩ := hs x (List.mem_cons_self ..)
    have hval : digitsValue n (x :: s) = digitsValue (n * 10 + d) s := by
      rw [digitsValue, List.foldl_cons, hd]
      rfl
    rw [hval] at hlt ⊢
    have hfits : int32 (l.iStatusCode * 10 + d) = (n * 10 + d : Nat) := by
      have := le_digitsValue (n * 10 + d) s
      rw [hn, ← int32_of_lt (Nat.lt_of_le_of_lt this hlt)]
      congr 1
    have hstep : statusStep l x = { l with iStatusCode := (n * 10 + d : Nat), c := x } := by
      simp only [statusStep, hstate, hd, hfits]
    have hx : x ≠ 10 := by
      rintro rfl
      cases hd
    have hgo : statusOver (statusStep l x) = false := by
      have hvalid : l.invalid = false := by
        rw [statusOver, Bool.or_eq_false_iff] at hc
        exact hc.2
      rw [hstep]
      simp [statusOver, hx, hvalid]
    obtain ⟨c, h₁, h₂⟩ := ih (l := statusStep l x) (fun c hmem => hs c (List.mem_cons_of_mem _ hmem))
      (by rw [hstep]; exact hstate) hgo (by rw [hstep]) hlt
    rw [hstep] at h₁ h₂
    exact ⟨c, .cons hc (by rw [hstep]; exact h₁), h₂⟩

/-- What follows the code is passed over. -/
theorem status_tail {l : StatusLine} {s : Bytes} (hstate : l.iState = .eReadingStatusCode)
    (hgo : statusOver l = false) (hne : s ≠ []) (hafter : ∀ c ∈ s.head?, digit? c = none)
    (hline : 10 ∉ s) : StatusTakes l (s ++ [10]) { l with iState := .eStatusCodeRead, c := 10 } := by
  obtain ⟨x, s, rfl⟩ := List.exists_cons_of_ne_nil hne
  have hvalid : l.invalid = false := by
    rw [statusOver, Bool.or_eq_false_iff] at hgo
    exact hgo.2
  have hx : digit? x = none := hafter x rfl
  have hstep : statusStep l x = { l with iState := .eStatusCodeRead, c := x } := by
    simp only [statusStep, hstate, hx]
  have hmem : ∀ c ∈ s, c ≠ 10 := fun c hc he => hline (List.mem_cons_of_mem _ (he ▸ hc))
  let P (l' : StatusLine) : Prop :=
    ∃ y, y ≠ 10 ∧ l' = { l with iState := .eStatusCodeRead, c := y }
  have hkeep : ∀ l' c, P l' → c ≠ 10 → P (statusStep l' c) := by
    rintro l' c ⟨y, -, rfl⟩ hc
    exact ⟨c, hc, rfl⟩
  have hgoes : ∀ l', P l' → statusOver l' = false := by
    rintro l' ⟨y, hy, rfl⟩
    simp [statusOver, hy, hvalid]
  obtain ⟨h₁, y, hy, hlast⟩ := Takes.of_inv hkeep hgoes hmem
    ⟨x, fun he => hline (he ▸ List.mem_cons_self ..), hstep⟩
  have hlastgo : statusOver (s.foldl statusStep (statusStep l x)) = false := by
    rw [hlast]
    simp [statusOver, hy, hvalid]
  have hend := h₁.concat hlastgo 10
  rw [hlast] at hend
  exact .cons hgo hend

theorem mem_decimal_digit {n : Nat} {c : UInt8} (h : c ∈ decimal n) : ∃ d, digit? c = some d := by
  obtain ⟨d, hd, rfl⟩ := mem_decimal h
  exact ⟨d, digit?_digit hd⟩

/-- The state after a line with the code `code`. -/
def StatusLine.read (code : Nat) : StatusLine :=
  { iState := .eStatusCodeRead, statusPtr := [], iStatusCode := code, c := 10 }

theorem status_takes {l : StatusText} (h : l.Ok) : StatusTakes {} l.line (.read l.code) := by
  have hlt : digitsValue 0 (decimal l.code) < 2 ^ 31 := by
    rw [digitsValue_decimal]
    exact h.code
  obtain ⟨c, hdigits, hgo⟩ := @status_digits
    { iState := .eReadingStatusCode, statusPtr := [], c := 32 } (decimal l.code) 0
    (fun c hc => mem_decimal_digit hc) rfl rfl rfl hlt
  rw [digitsValue_decimal] at hdigits hgo
  exact (status_version h).trans (hdigits.trans (status_tail rfl hgo h.tail h.after h.line))

/-- The pattern is met up to its octet `a`, and not there. -/
theorem status_mismatch {pre : Bytes} {a b : UInt8} {ps : Bytes} {l : StatusLine}
    (hstate : l.iState = .eRequestSent) (hptr : l.statusPtr = pre ++ a :: ps)
    (hgo : statusOver l = false) (hline : 10 ∉ pre) (ha : a ≠ 42) (hne : a ≠ b) :
    ∃ l', StatusTakes l (pre ++ [b]) l' ∧ l'.invalid = true := by
  induction pre generalizing l with
  | nil =>
    refine ⟨_, .cons hgo .nil, ?_⟩
    simp only [statusStep, hstate, hptr, List.nil_append]
    rw [if_neg (by simp [ha, hne])]
  | cons x pre ih =>
    have hvalid : l.invalid = false := by
      rw [statusOver, Bool.or_eq_false_iff] at hgo
      exact hgo.2
    have hstep : statusStep l x = { l with c := x, statusPtr := pre ++ a :: ps } := by
      simp [statusStep, hstate, hptr]
    have hx : x ≠ 10 := fun he => hline (he ▸ List.mem_cons_self ..)
    obtain ⟨l', htakes, hinvalid⟩ := ih (l := statusStep l x) (by rw [hstep]; exact hstate)
      (by rw [hstep]) (by rw [hstep]; simp [statusOver, hx, hvalid])
      fun h => hline (List.mem_cons_of_mem _ h)
    exact ⟨l', .cons hgo htakes, hinvalid⟩

/-- The octets `s` differ from `HTTP/` in one of their first five. -/
def Differs (s : Bytes) : Prop := ¬ s <+: text "HTTP/" ∧ ¬ text "HTTP/" <+: s

/-- Two texts of which neither is a prefix of the other differ at some place. -/
theorem exists_mismatch {p s : Bytes} (h : ¬ s <+: p ∧ ¬ p <+: s) :
    ∃ pre a ps b post, p = pre ++ a :: ps ∧ s = pre ++ b :: post ∧ a ≠ b := by
  induction p generalizing s with
  | nil => exact absurd List.nil_prefix h.2
  | cons x p ih =>
    cases s with
    | nil => exact absurd List.nil_prefix h.1
    | cons y s =>
      by_cases hxy : x = y
      · subst hxy
        simp only [List.cons_prefix_cons, true_and] at h
        obtain ⟨pre, a, ps, b, post, rfl, rfl, hne⟩ := ih h
        exact ⟨x :: pre, a, ps, b, post, rfl, rfl, hne⟩
      · exact ⟨[], x, p, y, s, rfl, rfl, hxy⟩

/-- A header line, whose name has no slash in it, is no status line. -/
theorem differs_field {name : Bytes} (h : 47 ∉ name) (value : Bytes) :
    Differs (name ++ 58 :: value) := by
  have hcolon : (58 : UInt8) ∉ (text "HTTP/" : Bytes) := by decide
  have hslash : (47 : UInt8) ∈ (text "HTTP/" : Bytes) := by decide
  refine ⟨fun hpre => hcolon (hpre.subset (by simp)), ?_⟩
  rintro ⟨t, ht⟩
  rcases List.append_eq_append_iff.mp ht with ⟨a, rfl, -⟩ | ⟨a, ha, hrest⟩
  · exact h (List.mem_append_left _ hslash)
  · cases a with
    | nil =>
      rw [List.append_nil] at ha
      exact h (ha ▸ hslash)
    | cons x a =>
      obtain ⟨rfl, -⟩ := List.cons.inj hrest
      exact hcolon (ha ▸ by simp)

section Lines

variable {limit : Nat} (hlimit : limit ≤ Uptime.period) (hpos : 0 < limit)
include hlimit hpos

theorem readStatusLine_line {l : StatusText} (h : l.Ok) {w rest : List Item}
    (hw : Carries limit 0 w (marked true l.line) rest) : readStatusLine limit w = (.read l.code, rest) :=
  scan_takes hlimit hw hpos (status_takes h) rfl

theorem statusLines_info {l : StatusText} (h : l.Ok) (hinfo : informational l.code = true)
    {w rest : List Item} (hw : Carries limit 0 w (marked true l.line) rest) :
    statusLines limit w = statusLines limit rest := by
  rw [statusLines, readStatusLine_line hlimit hpos h hw]
  simp [hinfo, StatusLine.read]

theorem statusLines_final {l : StatusText} (h : l.Ok) (hinfo : informational l.code = false)
    {w rest : List Item} (hw : Carries limit 0 w (marked true l.line) rest) :
    statusLines limit w = (((l.code : Int), StatusLine.read l.code), rest) := by
  rw [statusLines, readStatusLine_line hlimit hpos h hw]
  simp [hinfo, StatusLine.read]

/-- Informational lines are skipped, as long as a status line follows each. -/
theorem statusLines_infos {infos : List StatusText}
    (h : ∀ l ∈ infos, l.Ok ∧ informational l.code = true) {w rest : List Item}
    {s : List (UInt8 × Bool)}
    (hw : Carries limit 0 w (marked true (infos.flatMap StatusText.line) ++ s) rest) :
    ∃ mid, Carries limit 0 mid s rest ∧ statusLines limit w = statusLines limit mid := by
  induction infos generalizing w with
  | nil => exact ⟨w, hw, rfl⟩
  | cons l infos ih =>
    rw [List.flatMap_cons, marked_append, List.append_assoc] at hw
    obtain ⟨t, mid, -, h₁, h₂⟩ := hw.split hpos
    obtain ⟨hok, hinfo⟩ := h l (List.mem_cons_self ..)
    obtain ⟨mid', h₃, he⟩ := ih (fun l' hl' => h l' (List.mem_cons_of_mem _ hl'))
      (h₂.mono (Nat.zero_le t))
    exact ⟨mid', h₃, (statusLines_info hlimit hpos hok hinfo h₁).trans he⟩

/-- What begins otherwise than `HTTP/` is no status line. -/
theorem statusLines_invalid {s : Bytes} (hs : Differs s) {w rest : List Item}
    (hw : Carries limit 0 w (marked true s) rest) :
    (statusLines limit w).1.1 = HTTP_ERROR_INVALID_RESPONSE := by
  obtain ⟨pre, a, ps, b, post, hp, rfl, hne⟩ := exists_mismatch hs
  have hsplit : marked true (pre ++ b :: post) = marked true (pre ++ [b]) ++ marked true post := by
    rw [← marked_append, List.append_assoc, List.singleton_append]
  rw [hsplit] at hw
  obtain ⟨-, mid, -, hw, -⟩ := hw.split hpos
  have hpattern : (text "HTTP/*.* " : Bytes) = pre ++ a :: (ps ++ text "*.* ") := by
    rw [← List.cons_append, ← List.append_assoc, ← hp]
    rfl
  have hmem : ∀ c ∈ pre ++ [a], c ≠ 10 ∧ c ≠ 42 := by
    intro c hc
    have hall : ∀ c ∈ (text "HTTP/" : Bytes), c ≠ 10 ∧ c ≠ 42 := by decide +kernel
    refine hall c ?_
    rw [hp, List.append_cons]
    exact List.mem_append_left _ hc
  obtain ⟨l, htakes, hinvalid⟩ := @status_mismatch pre a b (ps ++ text "*.* ") {} rfl hpattern rfl
    (fun h => (hmem _ (List.mem_append_left _ h)).1 rfl)
    (hmem a (List.mem_append_right _ (List.mem_singleton_self a))).2 hne
  have hread : readStatusLine limit w = (l, mid) :=
    scan_takes hlimit hw hpos htakes (by simp [statusOver, hinvalid])
  rw [statusLines, hread]
  simp only [hinvalid, if_true]

end Lines

/-! ## The header block -/

/-- A line of the header block. -/
inductive Header where
  | contentLength (n : Nat)
  | chunked
  | other (line : Bytes)
deriving DecidableEq

def Header.line : Header → Bytes
  | .contentLength n => kContentLengthPrefix ++ decimal n
  | .chunked => kTransferEncodingChunked
  | .other line => line

/-- A line that neither of the two names can be picked out of. -/
structure Inert (line : Bytes) : Prop where
  ne : line ≠ []
  lf : 10 ∉ line
  cr : 13 ∉ line
  length : ¬ kContentLengthPrefix.Sublist line
  chunked : ¬ kTransferEncodingChunked.Sublist line

def Header.Ok : Header → Prop
  | .contentLength _ | .chunked => True
  | .other line => Inert line

/-- At the start of a line of the header block. -/
structure LineStart (h : HttpClient) : Prop where
  state : h.iState = .eStatusCodeRead
  length : h.iContentLengthPtr = kContentLengthPrefix
  chunked : h.iTransferEncodingChunkedPtr = kTransferEncodingChunked

theorem LineStart.reset {h : HttpClient} (h0 : LineStart h) :
    { h with
      iState := .eStatusCodeRead, iContentLengthPtr := kContentLengthPrefix
      iTransferEncodingChunkedPtr := kTransferEncodingChunked } = h := by
  rw [← h0.state, ← h0.length, ← h0.chunked]

abbrev HeaderTakes := Takes headerStep endOfHeadersReached

/-- In the middle of a line: the octets `a` of it have passed, and nothing was noted. -/
structure Midline (h₀ : HttpClient) (a : Bytes) (h : HttpClient) : Prop where
  same : h = { h₀ with
    iState := h.iState, iContentLengthPtr := h.iContentLengthPtr
    iTransferEncodingChunkedPtr := h.iTransferEncodingChunkedPtr }
  state : h.iState = .eSkipToEndOfHeader ∨ h.iState = .eStatusCodeRead ∧
    (a ≠ [] → ¬ (h.iContentLengthPtr = kContentLengthPrefix ∧
      h.iTransferEncodingChunkedPtr = kTransferEncodingChunked)) ∧
    (∃ x, kContentLengthPrefix = x ++ h.iContentLengthPtr ∧ x.Sublist a) ∧
    ∃ y, kTransferEncodingChunked = y ++ h.iTransferEncodingChunkedPtr ∧ y.Sublist a

theorem Midline.goes {h₀ h : HttpClient} {a : Bytes} (hm : Midline h₀ a h) :
    h.endOfHeadersReached = false := by
  rcases hm.state with hs | ⟨hs, -⟩
  · simp [endOfHeadersReached, hs]
  · simp [endOfHeadersReached, hs]

theorem headerStep_eq {h : HttpClient} {c : UInt8} (hc : c ≠ 10) :
    h.headerStep c = h.headerSwitch c := by
  simp only [headerStep, hc, false_and, if_false]

/-- An octet of an inert line leaves nothing behind. -/
theorem Midline.step {h₀ h : HttpClient} {a : Bytes} (hm : Midline h₀ a h) {c : UInt8}
    (hc : c ≠ 10) (hcr : a = [] → c ≠ 13) (hl : ¬ kContentLengthPrefix.Sublist (a ++ [c]))
    (ht : ¬ kTransferEncodingChunked.Sublist (a ++ [c])) : Midline h₀ (a ++ [c]) (h.headerStep c) := by
  rw [headerStep_eq hc]
  obtain ⟨hsame, hstate⟩ := hm
  rcases hstate with hs | ⟨hs, hstart, ⟨x, hx, hxa⟩, y, hy, hya⟩
  · have he : h.headerSwitch c = h := by simp only [headerSwitch, hs]
    rw [he]
    exact ⟨hsame, .inl hs⟩
  · have hstarted : ∀ {p k z : Bytes}, k = z ++ c :: p → p ≠ k := by
      rintro p k z rfl he
      have := congrArg List.length he
      rw [List.length_append, List.length_cons] at this
      omega
    have hmore : ∀ {z : Bytes}, z.Sublist a → (z ++ [c]).Sublist (a ++ [c]) :=
      fun hz => hz.append (List.Sublist.refl [c])
    simp only [headerSwitch, hs]
    by_cases h₁ : h.iContentLengthPtr.head? = some c
    · obtain ⟨p, hp⟩ := List.head?_eq_some_iff.mp h₁
      rw [hp] at hx
      rw [if_pos h₁, hp, List.tail_cons]
      by_cases hend : p = []
      · rw [hend] at hx
        exact absurd (hx ▸ hmore hxa) hl
      · rw [if_neg hend]
        refine ⟨by rw [hsame], .inr ⟨rfl, fun _ hstart => hstarted hx hstart.1, ⟨x ++ [c], ?_, hmore hxa⟩,
          y, hy, hya.trans (List.sublist_append_left a [c])⟩⟩
        rw [hx, List.append_assoc]
        rfl
    · rw [if_neg h₁]
      by_cases h₂ : h.iTransferEncodingChunkedPtr.head? = some c
      · obtain ⟨q, hq⟩ := List.head?_eq_some_iff.mp h₂
        rw [hq] at hy
        rw [if_pos h₂, hq, List.tail_cons]
        by_cases hend : q = []
        · rw [hend] at hy
          exact absurd (hy ▸ hmore hya) ht
        · rw [if_neg hend]
          refine ⟨by rw [hsame], .inr ⟨rfl, fun _ hstart => hstarted hy hstart.2,
            ⟨x, hx, hxa.trans (List.sublist_append_left a [c])⟩, y ++ [c], ?_, hmore hya⟩⟩
          rw [hy, List.append_assoc]
          rfl
      · have h₃ : ¬ (h.iContentLengthPtr = kContentLengthPrefix ∧
            h.iTransferEncodingChunkedPtr = kTransferEncodingChunked ∧ c = 13) := by
          rintro ⟨h₁, h₂, h13⟩
          have hnil : a = [] := by
            by_contra hne
            exact hstart hne ⟨h₁, h₂⟩
          exact hcr hnil h13
        rw [if_neg h₂, if_neg h₃]
        exact ⟨by rw [hsame], .inl rfl⟩

theorem not_sublist_concat {k a : Bytes} {c : UInt8} (hc : c ∉ k) (h : ¬ k.Sublist a) :
    ¬ k.Sublist (a ++ [c]) := by
  intro hsub
  obtain ⟨k₁, k₂, rfl, h₁, h₂⟩ := List.sublist_append_iff.mp hsub
  cases k₂ with
  | nil => exact h (by rwa [List.append_nil])
  | cons d k₂ =>
    obtain rfl := List.mem_singleton.mp (h₂.subset (List.mem_cons_self ..))
    exact hc (List.mem_append_right _ (List.mem_cons_self ..))

/-- The end of a line of which nothing was noted. -/
theorem Midline.lf {h₀ h : HttpClient} (h0 : LineStart h₀) {a : Bytes} (hm : Midline h₀ a h) :
    h.headerStep 10 = h₀ := by
  obtain ⟨hsame, hstate⟩ := hm
  have hskip : h.headerSwitch 10 = { h with iState := .eSkipToEndOfHeader } := by
    rcases hstate with hs | ⟨hs, -, ⟨x, hx, -⟩, y, hy, -⟩
    · simp only [headerSwitch, hs]
      rw [← hs]
    · have hno : ∀ {k z p : Bytes}, 10 ∉ k → k = z ++ p → p.head? ≠ some 10 := by
        rintro k z p hk rfl hp
        obtain ⟨p, rfl⟩ := List.head?_eq_some_iff.mp hp
        exact hk (List.mem_append_right _ (List.mem_cons_self ..))
      simp only [headerSwitch, hs]
      rw [if_neg (hno (by decide) hx), if_neg (hno (by decide) hy), if_neg (by simp)]
  simp only [headerStep, hskip, endOfHeadersReached]
  rw [hsame]
  exact h0.reset

theorem Midline.line {h₀ : HttpClient} {line : Bytes} (hi : Inert line) {a b : Bytes}
    (hab : a ++ b = line) {h : HttpClient} (hm : Midline h₀ a h) :
    ∃ h', HeaderTakes h b h' ∧ Midline h₀ line h' := by
  induction b generalizing a h with
  | nil =>
    rw [List.append_nil] at hab
    exact ⟨h, .nil, hab ▸ hm⟩
  | cons c b ih =>
    have hmem : c ∈ line := hab ▸ List.mem_append_right a (List.mem_cons_self ..)
    have hac : (a ++ [c]).Sublist line := by
      rw [← hab]
      exact (List.Sublist.refl a).append (List.singleton_sublist.mpr (List.mem_cons_self ..))
    have hab' : a ++ [c] ++ b = line := by
      rw [List.append_assoc]
      exact hab
    have hstep := hm.step (c := c) (fun he => hi.lf (he ▸ hmem)) (fun _ he => hi.cr (he ▸ hmem))
      (fun hs => hi.length (hs.trans hac)) (fun hs => hi.chunked (hs.trans hac))
    obtain ⟨h', h₁, h₂⟩ := ih hab' hstep
    exact ⟨h', .cons hm.goes h₁, h₂⟩

/-- An inert line leaves the client as it was. -/
theorem inert_takes {h₀ : HttpClient} (h0 : LineStart h₀) {line : Bytes} (hi : Inert line) :
    HeaderTakes h₀ (line ++ crlf) h₀ := by
  have hstart : Midline h₀ [] h₀ := by
    refine ⟨rfl, .inr ⟨h0.state, fun hne => absurd rfl hne, ⟨[], ?_, .slnil⟩, [], ?_, .slnil⟩⟩
    · exact h0.length.symm
    · exact h0.chunked.symm
  obtain ⟨h', htakes, hm⟩ := Midline.line hi (List.nil_append line) hstart
  have hcr := hm.step (c := 13) (by decide) (fun he => absurd he hi.ne)
    (not_sublist_concat (by decide) hi.length) (not_sublist_concat (by decide) hi.chunked)
  have hend : HeaderTakes h₀ (line ++ crlf) ((h'.headerStep 13).headerStep 10) :=
    htakes.trans (.cons hm.goes (.cons hcr.goes .nil))
  rw [hcr.lf h0] at hend
  exact hend

/-! ### The two names -/

/-- The rest `p` of the name is there: a length is due. -/
theorem length_name {h : HttpClient} (hs : h.iState = .eStatusCodeRead) {p : Bytes}
    (hp : h.iContentLengthPtr = p) (hne : p ≠ []) (h10 : 10 ∉ p) :
    HeaderTakes h p { h with
      iState := .eReadingContentLength, iContentLengthPtr := [], iContentLength := 0
      iBodyLengthConsumed := 0 } := by
  induction p generalizing h with
  | nil => exact absurd rfl hne
  | cons c p ih =>
    have hgo : h.endOfHeadersReached = false := by simp [endOfHeadersReached, hs]
    have hc : c ≠ 10 := fun he => h10 (he ▸ List.mem_cons_self ..)
    refine .cons hgo ?_
    rw [headerStep_eq hc]
    simp only [headerSwitch, hs]
    rw [if_pos (by rw [hp]; rfl), hp, List.tail_cons]
    cases p with
    | nil => exact .nil
    | cons d p =>
      rw [if_neg (List.cons_ne_nil d p)]
      exact ih (h := { h with iState := .eStatusCodeRead, iContentLengthPtr := d :: p }) rfl rfl
        (List.cons_ne_nil d p) fun hmem => h10 (List.mem_cons_of_mem _ hmem)

/-- The rest `q` of the name and its value are there: the body is in chunks. -/
theorem chunked_name {h : HttpClient} (hs : h.iState = .eStatusCodeRead) {q : Bytes}
    (hq : h.iTransferEncodingChunkedPtr = q) (hl : h.iContentLengthPtr = kContentLengthPrefix)
    (hne : q ≠ []) (h10 : 10 ∉ q) (h67 : 67 ∉ q) :
    HeaderTakes h q { h with
      iState := .eSkipToEndOfHeader, iTransferEncodingChunkedPtr := [], iIsChunked := true } := by
  induction q generalizing h with
  | nil => exact absurd rfl hne
  | cons c q ih =>
    have hgo : h.endOfHeadersReached = false := by simp [endOfHeadersReached, hs]
    have hc : c ≠ 10 := fun he => h10 (he ▸ List.mem_cons_self ..)
    have hC : h.iContentLengthPtr.head? ≠ some c := by
      rw [hl]
      rintro ⟨⟩
      exact h67 (List.mem_cons_self ..)
    refine .cons hgo ?_
    rw [headerStep_eq hc]
    simp only [headerSwitch, hs]
    rw [if_neg hC, if_pos (by rw [hq]; rfl), hq, List.tail_cons]
    cases q with
    | nil => exact .nil
    | cons d q =>
      rw [if_neg (List.cons_ne_nil d q)]
      exact ih (h := { h with iState := .eStatusCodeRead, iTransferEncodingChunkedPtr := d :: q }) rfl
        rfl hl (List.cons_ne_nil d q) (fun hmem => h10 (List.mem_cons_of_mem _ hmem))
        fun hmem => h67 (List.mem_cons_of_mem _ hmem)

/-- The number that is read from the digits `s` of a length, after `acc`. -/
def lengthRead (acc : Int) (s : Bytes) : Int :=
  s.foldl (fun x c => max x (int32 (x * 10 + (digit? c).getD 0))) acc

theorem length_digits {h : HttpClient} (hs : h.iState = .eReadingContentLength) {s : Bytes}
    (hd : ∀ c ∈ s, ∃ d, digit? c = some d) :
    HeaderTakes h s { h with iContentLength := lengthRead h.iContentLength s } := by
  induction s generalizing h with
  | nil => exact .nil
  | cons c s ih =>
    obtain ⟨d, hc⟩ := hd c (List.mem_cons_self ..)
    have h10 : c ≠ 10 := by
      rintro rfl
      cases hc
    have hgo : h.endOfHeadersReached = false := by simp [endOfHeadersReached, hs]
    have hstep : h.headerStep c =
        { h with iContentLength := max h.iContentLength (int32 (h.iContentLength * 10 + d)) } := by
      rw [headerStep_eq h10]
      simp only [headerSwitch, hs, hc]
      split
      · rw [max_eq_right (by omega)]
      · rw [max_eq_left (by omega), ← hs]
    refine .cons hgo ?_
    have := ih (h := h.headerStep c) (by rw [hstep]; exact hs) fun e he =>
      hd e (List.mem_cons_of_mem _ he)
    rw [hstep] at this ⊢
    rw [lengthRead, List.foldl_cons, hc]
    exact this

/-- It is the number that is written, as long as that fits. -/
theorem lengthRead_eq {s : Bytes} {n : Nat} (h : digitsValue n s < 2 ^ 31) :
    lengthRead n s = digitsValue n s := by
  induction s generalizing n with
  | nil => rfl
  | cons c s ih =>
    have hval : digitsValue n (c :: s) = digitsValue (n * 10 + (digit? c).getD 0) s := rfl
    rw [hval] at h ⊢
    rw [← ih h, lengthRead, List.foldl_cons]
    have hle := le_digitsValue (n * 10 + (digit? c).getD 0) s
    have hfits : int32 ((n : Int) * 10 + ((digit? c).getD 0 : Nat)) =
        (n * 10 + (digit? c).getD 0 : Nat) :=
      int32_of_lt (Nat.lt_of_le_of_lt hle h)
    rw [hfits, max_eq_right (by omega)]
    rfl

theorem lengthRead_lt {s : Bytes} {x : Int} (h : x < 2 ^ 31) : lengthRead x s < 2 ^ 31 := by
  induction s generalizing x with
  | nil => exact h
  | cons c s ih =>
    rw [lengthRead, List.foldl_cons]
    exact ih (max_lt h (int32_lt _))

/-- A length is read as it is written exactly when it is less than 2 GiB. -/
theorem lengthRead_decimal_iff (n : Nat) : lengthRead 0 (decimal n) = n ↔ n < 2 ^ 31 := by
  constructor
  · intro h
    have := @lengthRead_lt (decimal n) 0 (by decide)
    omega
  · intro h
    have := @lengthRead_eq (decimal n) 0 (by rwa [digitsValue_decimal])
    rwa [digitsValue_decimal] at this

/-! ### Lines and blocks -/

/-- What is noted of a header line. -/
def note (h : HttpClient) : Header → HttpClient
  | .contentLength n =>
    { h with iContentLength := lengthRead 0 (decimal n), iBodyLengthConsumed := 0 }
  | .chunked => { h with iIsChunked := true }
  | .other _ => h

theorem note_lineStart {h : HttpClient} (h0 : LineStart h) (x : Header) : LineStart (h.note x) := by
  cases x with
  | contentLength n => exact ⟨h0.state, h0.length, h0.chunked⟩
  | chunked => exact ⟨h0.state, h0.length, h0.chunked⟩
  | other line => exact h0

theorem header_takes {h : HttpClient} (h0 : LineStart h) {x : Header} (hx : x.Ok) :
    HeaderTakes h (x.line ++ crlf) (h.note x) := by
  cases x with
  | contentLength n =>
    have hname := length_name h0.state h0.length (by decide) (by decide)
    refine (List.append_assoc _ _ _ ▸ hname.trans ((length_digits rfl fun c hc =>
      mem_decimal_digit hc).trans (.cons ?_ (.cons ?_ ?_))))
    · rfl
    · rfl
    · rw [← (note_lineStart h0 (.contentLength n)).reset]
      exact .nil
  | chunked =>
    have hname := chunked_name h0.state h0.chunked h0.length (by decide) (by decide) (by decide)
    refine hname.trans (.cons ?_ (.cons ?_ ?_))
    · rfl
    · rfl
    · rw [← (note_lineStart h0 .chunked).reset]
      exact .nil
  | other line => exact inert_takes h0 hx

/-- The header block as it is sent: the lines, and an empty one. -/
def block (hs : List Header) : Bytes := hs.flatMap (·.line ++ crlf) ++ crlf

/-- A name, a colon and a value; no name has a slash in it. -/
def Header.IsField (x : Header) : Prop := ∃ name value, 47 ∉ name ∧ x.line = name ++ 58 :: value

/-- What follows the status line of a whole response begins with a header line or an empty one. -/
theorem differs_block {hs : List Header} (h : ∀ x ∈ hs, x.IsField) : Differs (block hs) := by
  cases hs with
  | nil => exact ⟨by decide, by decide⟩
  | cons x hs =>
    obtain ⟨name, value, hname, hx⟩ := h x (List.mem_cons_self ..)
    have hf := differs_field hname (value ++ (crlf ++ block hs))
    simpa [block, hx] using hf

def noteAll (h : HttpClient) (hs : List Header) : HttpClient := hs.foldl note h

/-- The body is due, in one piece or in chunks. -/
def startBody (h : HttpClient) : HttpClient :=
  if h.iIsChunked then { h with iState := .eReadingChunkLength, iChunkLength := 0 }
  else { h with iState := .eReadingBody }

theorem lines_takes {h : HttpClient} (h0 : LineStart h) {hs : List Header}
    (hok : ∀ x ∈ hs, x.Ok) :
    HeaderTakes h (hs.flatMap (·.line ++ crlf)) (h.noteAll hs) ∧ LineStart (h.noteAll hs) := by
  induction hs generalizing h with
  | nil => exact ⟨.nil, h0⟩
  | cons x hs ih =>
    obtain ⟨h₁, h₂⟩ := ih (note_lineStart h0 x) fun y hy => hok y (List.mem_cons_of_mem _ hy)
    exact ⟨(header_takes h0 (hok x (List.mem_cons_self ..))).trans h₁, h₂⟩

theorem block_takes {h : HttpClient} (h0 : LineStart h) {hs : List Header} (hok : ∀ x ∈ hs, x.Ok) :
    HeaderTakes h (block hs) (h.noteAll hs).startBody := by
  obtain ⟨htakes, hstart⟩ := lines_takes h0 hok
  generalize h.noteAll hs = h' at *
  have hgo : h'.endOfHeadersReached = false := by simp [endOfHeadersReached, hstart.state]
  have hcr : h'.headerStep 13 = { h' with iState := .eLineStartingCRFound } := by
    rw [headerStep_eq (by decide)]
    simp only [headerSwitch, hstart.state]
    rw [hstart.length, hstart.chunked, if_neg (by decide), if_neg (by decide), if_pos (by simp)]
  have hlf : (h'.headerStep 13).headerStep 10 = h'.startBody := by
    rw [hcr, startBody]
    simp only [headerStep, headerSwitch, if_true]
    split
    · rfl
    · rfl
  have hcrgo : (h'.headerStep 13).endOfHeadersReached = false := by
    rw [hcr]
    rfl
  refine htakes.trans (.cons hgo (.cons hcrgo ?_))
  rw [hlf]
  exact .nil

theorem startBody_reached (h : HttpClient) : h.startBody.endOfHeadersReached = true := by
  unfold startBody
  split
  · rfl
  · rfl

/-- The header block is read to its end, and what follows it is left. -/
theorem skipResponseHeaders_read {h : HttpClient} (h0 : LineStart h)
    (hlimit : h.iHttpResponseTimeout ≤ Uptime.period) (hpos : 0 < h.iHttpResponseTimeout)
    {hs : List Header} (hok : ∀ x ∈ hs, x.Ok) {rest : List Item}
    (hw : Carries h.iHttpResponseTimeout 0 h.rx (marked true (block hs)) rest) :
    h.skipResponseHeaders = (HTTP_SUCCESS, { (h.noteAll hs).startBody with rx := rest }) := by
  have hscan := scan_takes hlimit hw hpos (block_takes h0 hok) (startBody_reached _)
  simp only [skipResponseHeaders, hscan]
  have hend : ({ (h.noteAll hs).startBody with rx := rest } : HttpClient).endOfHeadersReached =
      true := startBody_reached (h.noteAll hs)
  rw [hend]
  rfl

end HttpClient
end Http
end TimerCam

import Mathlib.Data.List.Forall2
import Mathlib.Tactic.SplitIfs
import LoxLexer.Text.Utf8

/-!
# Lossy decoding and its bytes

A decoded text is written back as bytes: what was well formed comes back as it was, and each
replacement character as its own three bytes. No byte below `0x80` is ever swallowed or added, so
decoding can be done piece by piece wherever a piece starts with a byte that continues no
character.

## Main definitions

* `recoded bs`: the bytes of the text that `bs` decodes to
* `IsContinuation b`: the byte `b` can stand inside a character

## Main results

* `next_cases`: a character was encoded where it was read, or it stands for lost bytes that are
  not ASCII
* `decode_append`: decoding goes piece by piece
* `filter_ascii_recoded`: the ASCII bytes of a text are those of its source, in order
* `text_bytes`: a text can be read back from its bytes
* `slice?_append`: the pieces of a text can be cut out
-/

namespace LoxLexer.Utf8

/-! ## The bytes of a text -/

section Bytes

/-- The bytes of the text that a byte string decodes to. -/
def recoded (bs : List UInt8) : List UInt8 :=
  bytes (text bs)

theorem bytes_ofList (cs : List Char) :
    bytes (String.ofList cs) = cs.flatMap String.utf8EncodeChar := by
  simp [bytes, List.utf8Encode]

theorem recoded_eq (bs : List UInt8) : recoded bs = (decode bs).flatMap String.utf8EncodeChar :=
  bytes_ofList (decode bs)

@[simp] theorem recoded_nil : recoded [] = [] := by
  simp [recoded_eq]

theorem recoded_cons (b : UInt8) (bs : List UInt8) :
    recoded (b :: bs) = String.utf8EncodeChar (next b bs).1 ++ recoded (next b bs).2 := by
  rw [recoded_eq, decode_cons, List.flatMap_cons, ← recoded_eq]

theorem recoded_eq_nil_iff {bs : List UInt8} : recoded bs = [] ↔ bs = [] := by
  cases bs with
  | nil => simp
  | cons b bs => simp [recoded_cons]

end Bytes

/-! ## Characters and the bytes that encode them -/

section Encode

variable {b s t u : UInt8}

/-- A byte that can stand inside a character. -/
def IsContinuation (b : UInt8) : Prop :=
  0x80 ≤ b.toNat ∧ b.toNat ≤ 0xBF

theorem toNat_val_ofNat {v : Nat} (h : v.isValidChar) : (Char.ofNat v).val.toNat = v := by
  rw [Char.ofNat, dif_pos h]
  rfl

theorem encode_one (hb : b.toNat < 0x80) : String.utf8EncodeChar (Char.ofNat b.toNat) = [b] := by
  have valid : b.toNat.isValidChar := .inl (by omega)
  unfold String.utf8EncodeChar
  simp only [toNat_val_ofNat valid]
  rw [if_pos (by omega), UInt8.ofNat_toNat]

theorem encode_two (hb : 0xC2 ≤ b.toNat) (hb' : b.toNat < 0xE0) (ht : IsContinuation t) :
    String.utf8EncodeChar (Char.ofNat ((b.toNat - 0xC0) * 64 + (t.toNat - 0x80))) = [b, t] := by
  obtain ⟨ht, ht'⟩ := ht
  have valid : ((b.toNat - 0xC0) * 64 + (t.toNat - 0x80)).isValidChar := .inl (by omega)
  unfold String.utf8EncodeChar
  simp only [toNat_val_ofNat valid]
  rw [if_neg (by omega), if_pos (by omega)]
  simp only [List.cons.injEq, and_true, ← UInt8.toNat_inj, UInt8.toNat_ofNat']
  omega

/-- Three bytes; the second one excludes overlong forms and surrogates. -/
theorem encode_three (hb : 0xE0 ≤ b.toNat) (hb' : b.toNat < 0xF0) (hs : IsContinuation s)
    (ht : IsContinuation t) (hlow : b.toNat = 0xE0 → 0xA0 ≤ s.toNat)
    (hhigh : b.toNat = 0xED → s.toNat ≤ 0x9F) :
    String.utf8EncodeChar (Char.ofNat
      (((b.toNat - 0xE0) * 64 + (s.toNat - 0x80)) * 64 + (t.toNat - 0x80))) = [b, s, t] := by
  obtain ⟨hs, hs'⟩ := hs
  obtain ⟨ht, ht'⟩ := ht
  have valid : (((b.toNat - 0xE0) * 64 + (s.toNat - 0x80)) * 64 + (t.toNat - 0x80)).isValidChar := by
    simp only [Nat.isValidChar]
    omega
  unfold String.utf8EncodeChar
  simp only [toNat_val_ofNat valid]
  rw [if_neg (by omega), if_neg (by omega), if_pos (by omega)]
  simp only [List.cons.injEq, and_true, ← UInt8.toNat_inj, UInt8.toNat_ofNat']
  omega

/-- Four bytes; the second one excludes overlong forms and code points that are too large. -/
theorem encode_four (hb : 0xF0 ≤ b.toNat) (hb' : b.toNat < 0xF5) (hs : IsContinuation s)
    (ht : IsContinuation t) (hu : IsContinuation u) (hlow : b.toNat = 0xF0 → 0x90 ≤ s.toNat)
    (hhigh : b.toNat = 0xF4 → s.toNat ≤ 0x8F) :
    String.utf8EncodeChar (Char.ofNat
      ((((b.toNat - 0xF0) * 64 + (s.toNat - 0x80)) * 64 + (t.toNat - 0x80)) * 64 +
        (u.toNat - 0x80))) = [b, s, t, u] := by
  obtain ⟨hs, hs'⟩ := hs
  obtain ⟨ht, ht'⟩ := ht
  obtain ⟨hu, hu'⟩ := hu
  have valid : ((((b.toNat - 0xF0) * 64 + (s.toNat - 0x80)) * 64 + (t.toNat - 0x80)) * 64 +
      (u.toNat - 0x80)).isValidChar := by
    simp only [Nat.isValidChar]
    omega
  unfold String.utf8EncodeChar
  simp only [toNat_val_ofNat valid]
  rw [if_neg (by omega), if_neg (by omega), if_neg (by omega)]
  simp only [List.cons.injEq, and_true, ← UInt8.toNat_inj, UInt8.toNat_ofNat']
  omega

end Encode

/-! ## Reading one character -/

section Next

variable {b : UInt8} {bs rest : List UInt8} {lead : Lead} {code v : Nat} {rs : List ByteRange}

/-- What a lead byte can announce, by the number of bytes that follow. -/
inductive Announces (b : UInt8) : Lead → Prop where
  | one (hb : b.toNat < 0x80) : Announces b ⟨b.toNat, []⟩
  | two {payload : Nat} (hb : payload + 0xC0 = b.toNat) (hb' : 2 ≤ payload ∧ payload < 0x20) :
      Announces b ⟨payload, [continuation]⟩
  | three {payload : Nat} (r : ByteRange) (hb : payload + 0xE0 = b.toNat) (hb' : payload < 0x10)
      (hr : 0x80 ≤ r.low.toNat ∧ r.high.toNat ≤ 0xBF)
      (hlow : b.toNat = 0xE0 → 0xA0 ≤ r.low.toNat) (hhigh : b.toNat = 0xED → r.high.toNat ≤ 0x9F) :
      Announces b ⟨payload, [r, continuation]⟩
  | four {payload : Nat} (r : ByteRange) (hb : payload + 0xF0 = b.toNat) (hb' : payload < 5)
      (hr : 0x80 ≤ r.low.toNat ∧ r.high.toNat ≤ 0xBF)
      (hlow : b.toNat = 0xF0 → 0x90 ≤ r.low.toNat) (hhigh : b.toNat = 0xF4 → r.high.toNat ≤ 0x8F) :
      Announces b ⟨payload, [r, continuation, continuation]⟩

theorem announces_of_lead? (h : lead? b = some lead) : Announces b lead := by
  unfold lead? at h
  simp only [UInt8.lt_iff_toNat_lt, ← UInt8.toNat_inj, UInt8.reduceToNat] at h
  split_ifs at h <;> obtain rfl := Option.some.inj h
  · exact .one (by omega)
  · exact .two (by omega) (by omega)
  · exact .three _ (by omega) (by omega) (by decide) (by simp) (by omega)
  · exact .three _ (by omega) (by omega) (by decide) (by omega) (by simp)
  · exact .three _ (by omega) (by omega) (by decide) (by omega) (by omega)
  · exact .four _ (by omega) (by omega) (by decide) (by simp) (by omega)
  · exact .four _ (by omega) (by omega) (by decide) (by omega) (by omega)
  · exact .four _ (by omega) (by omega) (by decide) (by omega) (by simp)

theorem not_ascii_of_lead?_eq_none (h : lead? b = none) : 0x80 ≤ b.toNat := by
  by_contra hb
  have hb : b < 0x80 := by
    rw [UInt8.lt_iff_toNat_lt]
    simpa using hb
  simp [lead?, hb] at h

theorem ByteRange.has_iff {r : ByteRange} :
    r.has b = true ↔ r.low.toNat ≤ b.toNat ∧ b.toNat ≤ r.high.toNat := by
  simp [ByteRange.has, UInt8.le_iff_toNat_le]

theorem has_continuation_iff : continuation.has b = true ↔ IsContinuation b :=
  ByteRange.has_iff

/-- The bytes that follow a lead byte all continue a character. -/
theorem Announces.isContinuation (h : Announces b lead) {r : ByteRange} (hr : r ∈ lead.trail)
    {x : UInt8} (hx : r.has x = true) : IsContinuation x := by
  rw [ByteRange.has_iff] at hx
  cases h with
  | one => cases hr
  | two =>
    obtain rfl := List.mem_singleton.mp hr
    exact hx
  | three r' _ _ hr' =>
    rcases List.mem_cons.mp hr with rfl | hr
    · exact ⟨by omega, by omega⟩
    · obtain rfl := List.mem_singleton.mp hr
      exact hx
  | four r' _ _ hr' =>
    simp only [List.mem_cons, List.not_mem_nil, or_false, or_self] at hr
    rcases hr with rfl | rfl
    · exact ⟨by omega, by omega⟩
    · exact hx

/-- A complete trail: a byte from each interval, and the code point put together from them. -/
theorem trail_eq_some (h : trail code rs bs = (some v, rest)) :
    ∃ ts, bs = ts ++ rest ∧ List.Forall₂ (fun r t => r.has t = true) rs ts ∧
      v = ts.foldl (fun c t => c * 64 + (t.toNat - 0x80)) code := by
  induction rs generalizing code bs with
  | nil =>
    obtain ⟨hv, rfl⟩ := Prod.mk.inj h
    exact ⟨[], rfl, .nil, (Option.some.inj hv).symm⟩
  | cons r rs ih =>
    cases bs with
    | nil => cases h
    | cons b bs =>
      simp only [trail] at h
      split at h
      · rename_i hb
        obtain ⟨ts, rfl, hts, hv⟩ := ih h
        exact ⟨b :: ts, rfl, .cons hb hts, by rw [hv, List.foldl_cons]⟩
      · cases h

/-- A trail that is cut short: the bytes taken from the intervals are lost. -/
theorem trail_eq_none (h : trail code rs bs = (none, rest)) :
    rs ≠ [] ∧ ∃ lost, bs = lost ++ rest ∧ ∀ x ∈ lost, ∃ r ∈ rs, r.has x = true := by
  induction rs generalizing code bs with
  | nil => cases h
  | cons r rs ih =>
    refine ⟨by simp, ?_⟩
    cases bs with
    | nil =>
      obtain ⟨-, rfl⟩ := Prod.mk.inj h
      exact ⟨[], rfl, by simp⟩
    | cons b bs =>
      simp only [trail] at h
      split at h
      · rename_i hb
        obtain ⟨-, lost, rfl, hlost⟩ := ih h
        refine ⟨b :: lost, rfl, ?_⟩
        rintro x (_ | ⟨_, hx⟩)
        · exact ⟨r, List.mem_cons_self, hb⟩
        · obtain ⟨r', hr', hx⟩ := hlost x hx
          exact ⟨r', List.mem_cons_of_mem r hr', hx⟩
      · obtain ⟨-, rfl⟩ := Prod.mk.inj h
        exact ⟨[], rfl, by simp⟩

/-- A complete character is encoded by the bytes it was read from. -/
theorem Announces.encode {ts : List UInt8} (h : Announces b lead)
    (hts : List.Forall₂ (fun r t => r.has t = true) lead.trail ts) :
    String.utf8EncodeChar
      (Char.ofNat (ts.foldl (fun c t => c * 64 + (t.toNat - 0x80)) lead.payload)) = b :: ts := by
  cases h with
  | one hb =>
    cases hts
    exact encode_one hb
  | two hb hb' =>
    obtain ⟨t, _, ht, hnil, rfl⟩ := List.forall₂_cons_left_iff.mp hts
    cases hnil
    rw [List.foldl_cons, List.foldl_nil, Nat.eq_sub_of_add_eq hb]
    exact encode_two (by omega) (by omega) (has_continuation_iff.mp ht)
  | three r hb hb' hr hlow hhigh =>
    obtain ⟨s, _, hs, hs', rfl⟩ := List.forall₂_cons_left_iff.mp hts
    obtain ⟨t, _, ht, hnil, rfl⟩ := List.forall₂_cons_left_iff.mp hs'
    cases hnil
    rw [ByteRange.has_iff] at hs
    rw [List.foldl_cons, List.foldl_cons, List.foldl_nil, Nat.eq_sub_of_add_eq hb]
    exact encode_three (by omega) (by omega) ⟨by omega, by omega⟩ (has_continuation_iff.mp ht)
      (fun h => Nat.le_trans (hlow h) hs.1) (fun h => Nat.le_trans hs.2 (hhigh h))
  | four r hb hb' hr hlow hhigh =>
    obtain ⟨s, _, hs, hs', rfl⟩ := List.forall₂_cons_left_iff.mp hts
    obtain ⟨t, _, ht, ht', rfl⟩ := List.forall₂_cons_left_iff.mp hs'
    obtain ⟨u, _, hu, hnil, rfl⟩ := List.forall₂_cons_left_iff.mp ht'
    cases hnil
    rw [ByteRange.has_iff] at hs
    rw [List.foldl_cons, List.foldl_cons, List.foldl_cons, List.foldl_nil,
      Nat.eq_sub_of_add_eq hb]
    exact encode_four (by omega) (by omega) ⟨by omega, by omega⟩ (has_continuation_iff.mp ht)
      (has_continuation_iff.mp hu) (fun h => Nat.le_trans (hlow h) hs.1)
      (fun h => Nat.le_trans hs.2 (hhigh h))

/-- **One character is read**: either it is encoded by the bytes it was read from, or it replaces
lost bytes, none of which is ASCII. -/
theorem next_cases (b : UInt8) (bs : List UInt8) :
    b :: bs = String.utf8EncodeChar (next b bs).1 ++ (next b bs).2 ∨
      ((next b bs).1 = replacement ∧
        ∃ lost, lost ≠ [] ∧ b :: bs = lost ++ (next b bs).2 ∧ ∀ x ∈ lost, 0x80 ≤ x.toNat) := by
  unfold next
  split
  · rename_i h
    refine .inr ⟨rfl, [b], by simp, rfl, ?_⟩
    simpa using not_ascii_of_lead?_eq_none h
  · rename_i lead h
    have announces := announces_of_lead? h
    split
    · rename_i code rest ht
      obtain ⟨ts, rfl, hts, rfl⟩ := trail_eq_some ht
      left
      rw [announces.encode hts]
      rfl
    · rename_i rest ht
      -- the lead byte is lost too, and it announced something, so it is not ASCII
      obtain ⟨hne, lost, rfl, hlost⟩ := trail_eq_none ht
      refine .inr ⟨rfl, b :: lost, by simp, rfl, ?_⟩
      rintro x (_ | ⟨_, hx⟩)
      · cases announces with
        | one hb => exact absurd rfl hne
        | two | three | four => omega
      · obtain ⟨r, hr, hx⟩ := hlost x hx
        exact (announces.isContinuation hr hx).1

end Next

/-! ## Decoding piece by piece -/

section Append

variable {xs ys : List UInt8}

/-- A byte string that does not go on with a character: it is empty, or its first byte continues
none. -/
def Detached (ys : List UInt8) : Prop :=
  ∀ y ∈ ys.head?, ¬ IsContinuation y

theorem Detached.nil : Detached [] := by
  simp [Detached]

theorem Detached.cons {y : UInt8} (hy : y.toNat < 0x80) : Detached (y :: ys) := by
  intro z hz hc
  obtain rfl := Option.some.inj hz
  exact absurd hc.1 (by omega)

theorem Detached.append (hxs : ∀ x ∈ xs, x.toNat < 0x80) (hys : Detached ys) :
    Detached (xs ++ ys) := by
  cases xs with
  | nil => exact hys
  | cons x xs => exact .cons (hxs x List.mem_cons_self)

theorem trail_append {rs : List ByteRange} (hys : Detached ys)
    (hrs : ∀ r ∈ rs, ∀ x, r.has x = true → IsContinuation x) (code : Nat) (xs : List UInt8) :
    trail code rs (xs ++ ys) = ((trail code rs xs).1, (trail code rs xs).2 ++ ys) := by
  induction rs generalizing code xs with
  | nil => rfl
  | cons r rs ih =>
    cases xs with
    | nil =>
      -- the lead byte's character ends with the first piece, and the second does not go on with it
      cases ys with
      | nil => rfl
      | cons y ys =>
        have hy : r.has y ≠ true := fun h => hys y rfl (hrs r List.mem_cons_self y h)
        simp [trail, hy]
    | cons x xs =>
      simp only [List.cons_append, trail]
      split
      · exact ih (fun r' hr' => hrs r' (List.mem_cons_of_mem r hr')) _ xs
      · rfl

theorem next_append (hys : Detached ys) (x : UInt8) (xs : List UInt8) :
    next x (xs ++ ys) = ((next x xs).1, (next x xs).2 ++ ys) := by
  unfold next
  cases h : lead? x with
  | none => rfl
  | some lead =>
    have hrs : ∀ r ∈ lead.trail, ∀ x, r.has x = true → IsContinuation x :=
      fun r hr x hx => (announces_of_lead? h).isContinuation hr hx
    simp only [trail_append hys hrs]
    cases trail lead.payload lead.trail xs with
    | mk code rest => cases code <;> rfl

theorem next_of_ascii {y : UInt8} (hy : y.toNat < 0x80) (ys : List UInt8) :
    next y ys = (Char.ofNat y.toNat, ys) := by
  have hlt : y < 0x80 := by
    rw [UInt8.lt_iff_toNat_lt]
    exact hy
  simp [next, lead?, hlt, trail]

theorem decode_append_detached (hys : Detached ys) (xs : List UInt8) :
    decode (xs ++ ys) = decode xs ++ decode ys := by
  fun_induction decode xs with
  | case1 => rfl
  | case2 x xs ih => rw [List.cons_append, decode_cons, next_append hys, ih, List.cons_append]

theorem decode_append_closed {x : UInt8} (hx : x.toNat < 0x80) (xs ys : List UInt8) :
    decode (xs ++ [x] ++ ys) = decode (xs ++ [x]) ++ decode ys := by
  have alone : ∀ zs, decode (x :: zs) = Char.ofNat x.toNat :: decode zs := fun zs => by
    rw [decode_cons, next_of_ascii hx]
  rw [List.append_assoc, List.singleton_append, decode_append_detached (.cons hx),
    decode_append_detached (.cons hx), alone, alone, decode_nil, List.append_assoc,
    List.singleton_append]

/-- Two pieces that share no character: the first is empty or ends in ASCII, or the second does not
go on with a character. -/
def Separate (xs ys : List UInt8) : Prop :=
  (∀ x ∈ xs.getLast?, x.toNat < 0x80) ∨ Detached ys

/-- **Decoding goes piece by piece.** -/
theorem decode_append (h : Separate xs ys) : decode (xs ++ ys) = decode xs ++ decode ys := by
  rcases h with hxs | hys
  · rcases List.eq_nil_or_concat xs with rfl | ⟨xs, x, rfl⟩
    · simp
    · rw [List.concat_eq_append]
      exact decode_append_closed (hxs x (by simp)) xs ys
  · exact decode_append_detached hys xs

theorem text_append (h : Separate xs ys) : text (xs ++ ys) = text xs ++ text ys := by
  rw [text, decode_append h, String.ofList_append]
  rfl

theorem recoded_append (h : Separate xs ys) : recoded (xs ++ ys) = recoded xs ++ recoded ys := by
  simp only [recoded_eq, decode_append h, List.flatMap_append]

theorem recoded_cons_of_ascii {y : UInt8} (hy : y.toNat < 0x80) (ys : List UInt8) :
    recoded (y :: ys) = y :: recoded ys := by
  rw [recoded_cons, next_of_ascii hy, encode_one hy]
  rfl

/-- ASCII comes back as it was. -/
theorem recoded_of_ascii (h : ∀ x ∈ xs, x.toNat < 0x80) : recoded xs = xs := by
  induction xs with
  | nil => exact recoded_nil
  | cons x xs ih =>
    rw [recoded_cons_of_ascii (h x List.mem_cons_self),
      ih fun y hy => h y (List.mem_cons_of_mem x hy)]

end Append

/-! ## ASCII bytes are kept -/

section Ascii

/-- A byte below `0x80`. -/
def isAscii (b : UInt8) : Bool :=
  b.toNat < 0x80

theorem encode_replacement : String.utf8EncodeChar replacement = [0xEF, 0xBF, 0xBD] := by decide

theorem not_ascii_of_mem_replacement {x : UInt8} (h : x ∈ String.utf8EncodeChar replacement) :
    0x80 ≤ x.toNat := by
  rw [encode_replacement, List.mem_cons, List.mem_cons, List.mem_singleton] at h
  rcases h with rfl | rfl | rfl <;> decide

theorem filter_eq_nil_of_not_ascii {bs : List UInt8} (h : ∀ x ∈ bs, 0x80 ≤ x.toNat) :
    bs.filter isAscii = [] := by
  rw [List.filter_eq_nil_iff]
  intro x hx
  simpa [isAscii] using h x hx

/-- **No ASCII byte is swallowed or added**: those of a text are those of its source, in order. -/
theorem filter_ascii_recoded (bs : List UInt8) :
    (recoded bs).filter isAscii = bs.filter isAscii := by
  fun_induction decode bs with
  | case1 => rw [recoded_nil]
  | case2 b bs ih =>
    rw [recoded_cons, List.filter_append, ih]
    -- a character keeps its bytes, and a replacement has no ASCII on either side
    rcases next_cases b bs with whole | ⟨hrep, lost, -, whole, hlost⟩
    · rw [← List.filter_append, ← whole]
    · conv_rhs => rw [whole]
      rw [hrep, List.filter_append, filter_eq_nil_of_not_ascii hlost,
        filter_eq_nil_of_not_ascii fun x hx => not_ascii_of_mem_replacement hx]

theorem count_recoded {b : UInt8} (hb : b.toNat < 0x80) (bs : List UInt8) :
    (recoded bs).count b = bs.count b := by
  have ascii : isAscii b = true := by simpa [isAscii] using hb
  rw [← List.count_filter ascii, filter_ascii_recoded, List.count_filter ascii]

/-- If a text ends in an ASCII byte, so did its source. -/
theorem getLast?_of_recoded {bs : List UInt8} {y : UInt8} (hy : y.toNat < 0x80)
    (h : (recoded bs).getLast? = some y) : bs.getLast? = some y := by
  fun_induction decode bs with
  | case1 => simp at h
  | case2 b bs ih =>
    rw [recoded_cons, List.getLast?_append] at h
    cases hlast : (recoded (next b bs).2).getLast? with
    | none =>
      -- nothing is left behind this character
      have hrest : (next b bs).2 = [] := recoded_eq_nil_iff.mp (List.getLast?_eq_none_iff.mp hlast)
      rw [hlast, Option.none_or] at h
      rcases next_cases b bs with whole | ⟨hrep, -⟩
      · rw [whole, hrest, List.append_nil, h]
      · rw [hrep] at h
        have := not_ascii_of_mem_replacement (List.mem_of_getLast? h)
        omega
    | some z =>
      rw [hlast, Option.some_or] at h
      have hrest := ih (hlast.trans h)
      rcases next_cases b bs with whole | ⟨-, lost, -, whole, -⟩
      · rw [whole, List.getLast?_append, hrest, Option.some_or]
      · rw [whole, List.getLast?_append, hrest, Option.some_or]

end Ascii

/-! ## Reading what was written -/

section Encoded

variable {b : UInt8}

theorem lead?_one (hb : b.toNat < 0x80) : lead? b = some ⟨b.toNat, []⟩ := by
  simp [lead?, UInt8.lt_iff_toNat_lt, hb]

theorem lead?_two (hb : 0xC2 ≤ b.toNat) (hb' : b.toNat < 0xE0) :
    lead? b = some ⟨b.toNat - 0xC0, [continuation]⟩ := by
  simp only [lead?, UInt8.lt_iff_toNat_lt, UInt8.reduceToNat]
  rw [if_neg (by omega), if_neg (by omega), if_pos hb']

/-- The second of three bytes is refused only where it would be overlong or a surrogate. -/
theorem lead?_three (hb : 0xE0 ≤ b.toNat) (hb' : b.toNat < 0xF0) :
    ∃ payload r, lead? b = some ⟨payload, [r, continuation]⟩ ∧
      ∀ s : UInt8, IsContinuation s → (b.toNat = 0xE0 → 0xA0 ≤ s.toNat) →
        (b.toNat = 0xED → s.toNat ≤ 0x9F) → r.has s = true := by
  simp only [lead?, UInt8.lt_iff_toNat_lt, ← UInt8.toNat_inj, UInt8.reduceToNat, ByteRange.has_iff]
  rw [if_neg (by omega), if_neg (by omega), if_neg (by omega)]
  split_ifs with low high
  · exact ⟨_, _, rfl, fun s hs hlow _ => ⟨hlow low, hs.2⟩⟩
  · exact ⟨_, _, rfl, fun s hs _ hhigh => ⟨hs.1, hhigh high⟩⟩
  · exact ⟨_, _, rfl, fun s hs _ _ => hs⟩

/-- The second of four bytes is refused only where it would be overlong or too large. -/
theorem lead?_four (hb : 0xF0 ≤ b.toNat) (hb' : b.toNat < 0xF5) :
    ∃ payload r, lead? b = some ⟨payload, [r, continuation, continuation]⟩ ∧
      ∀ s : UInt8, IsContinuation s → (b.toNat = 0xF0 → 0x90 ≤ s.toNat) →
        (b.toNat = 0xF4 → s.toNat ≤ 0x8F) → r.has s = true := by
  simp only [lead?, UInt8.lt_iff_toNat_lt, ← UInt8.toNat_inj, UInt8.reduceToNat, ByteRange.has_iff]
  rw [if_neg (by omega), if_neg (by omega), if_neg (by omega), if_neg (by omega),
    if_neg (by omega), if_neg (by omega)]
  split_ifs with low between high
  · exact ⟨_, _, rfl, fun s hs hlow _ => ⟨hlow low, hs.2⟩⟩
  · exact ⟨_, _, rfl, fun s hs _ _ => hs⟩
  · exact ⟨_, _, rfl, fun s hs _ hhigh => ⟨hs.1, hhigh high⟩⟩
  · omega

theorem trail_append_of_forall₂ {rs : List ByteRange} {ts : List UInt8}
    (h : List.Forall₂ (fun r t => r.has t = true) rs ts) (code : Nat) (bs : List UInt8) :
    trail code rs (ts ++ bs) =
      (some (ts.foldl (fun c t => c * 64 + (t.toNat - 0x80)) code), bs) := by
  induction h generalizing code with
  | nil => rfl
  | cons ht _ ih => rw [List.cons_append, trail, if_pos ht, ih, List.foldl_cons]

/-- A character is encoded by a lead byte and one byte from each interval that this announces. -/
theorem exists_lead_encode (c : Char) :
    ∃ b ts lead, String.utf8EncodeChar c = b :: ts ∧ lead? b = some lead ∧
      List.Forall₂ (fun r t => r.has t = true) lead.trail ts := by
  have valid : c.val.toNat < 0xD800 ∨ 0xDFFF < c.val.toNat ∧ c.val.toNat < 0x110000 := c.valid
  have continues (n : Nat) : IsContinuation (UInt8.ofNat (n % 64 + 128)) := by
    constructor <;> rw [UInt8.toNat_ofNat'] <;> omega
  have continued (n : Nat) : continuation.has (UInt8.ofNat (n % 64 + 128)) = true :=
    has_continuation_iff.mpr (continues n)
  unfold String.utf8EncodeChar
  dsimp only
  generalize c.val.toNat = v at valid
  -- by the number of bytes; the second byte keeps to its interval because the code point is valid
  split_ifs with one two three
  · refine ⟨_, _, _, rfl, lead?_one ?_, .nil⟩
    rw [UInt8.toNat_ofNat']
    omega
  · refine ⟨_, _, _, rfl, lead?_two ?_ ?_, .cons (continued v) .nil⟩ <;>
      rw [UInt8.toNat_ofNat'] <;> omega
  · obtain ⟨payload, r, hlead, hr⟩ := lead?_three (b := UInt8.ofNat (v / 4096 % 16 + 224))
      (by rw [UInt8.toNat_ofNat']; omega) (by rw [UInt8.toNat_ofNat']; omega)
    refine ⟨_, _, _, rfl, hlead, .cons (hr _ (continues _) ?_ ?_) (.cons (continued v) .nil)⟩ <;>
      simp only [UInt8.toNat_ofNat'] <;> omega
  · obtain ⟨payload, r, hlead, hr⟩ := lead?_four (b := UInt8.ofNat (v / 262144 % 8 + 240))
      (by rw [UInt8.toNat_ofNat']; omega) (by rw [UInt8.toNat_ofNat']; omega)
    refine ⟨_, _, _, rfl, hlead, .cons (hr _ (continues _) ?_ ?_)
      (.cons (continued _) (.cons (continued v) .nil))⟩ <;>
      simp only [UInt8.toNat_ofNat'] <;> omega

/-- An encoded character is read as it was written. -/
theorem recoded_encode_append (c : Char) (bs : List UInt8) :
    recoded (String.utf8EncodeChar c ++ bs) = String.utf8EncodeChar c ++ recoded bs := by
  obtain ⟨b, ts, lead, hc, hlead, hts⟩ := exists_lead_encode c
  have hnext : next b (ts ++ bs) =
      (Char.ofNat (ts.foldl (fun c t => c * 64 + (t.toNat - 0x80)) lead.payload), bs) := by
    simp only [next, hlead, trail_append_of_forall₂ hts]
  rw [hc, List.cons_append, recoded_cons, hnext, (announces_of_lead? hlead).encode hts]

theorem recoded_bytes (s : String) : recoded (bytes s) = bytes s := by
  rw [← String.ofList_toList (s := s), bytes_ofList]
  induction s.toList with
  | nil => exact recoded_nil
  | cons c cs ih => rw [List.flatMap_cons, recoded_encode_append, ih]

theorem bytes_injective {s t : String} (h : bytes s = bytes t) : s = t :=
  String.toByteArray_inj.mp (ByteArray.ext (Array.toList_inj.mp h))

/-- **Decoding the bytes of a text** gives the text. -/
theorem text_bytes (s : String) : text (bytes s) = s :=
  bytes_injective (recoded_bytes s)

end Encoded

/-! ## Cutting a text -/

section Slice

variable (s t u : String)

@[simp] theorem length_bytes : (bytes s).length = s.utf8ByteSize := by
  simp [bytes]

theorem bytes_append : bytes (s ++ t) = bytes s ++ bytes t := by
  simp [bytes]

theorem isBoundary_append : isBoundary (s ++ t) s.utf8ByteSize = true := by
  rw [isBoundary, String.Pos.Raw.isValid_eq_true_iff, String.Pos.Raw.isValid_iff_exists_append]
  exact ⟨s, t, rfl, rfl⟩

/-- **The middle of a text** can be cut out. -/
theorem slice?_append :
    slice? (s ++ t ++ u) s.utf8ByteSize (s.utf8ByteSize + t.utf8ByteSize) = some (bytes t) := by
  have starts : isBoundary (s ++ t ++ u) s.utf8ByteSize = true := by
    rw [String.append_assoc]
    exact isBoundary_append s (t ++ u)
  have stops : isBoundary (s ++ t ++ u) (s.utf8ByteSize + t.utf8ByteSize) = true := by
    rw [← String.utf8ByteSize_append]
    exact isBoundary_append (s ++ t) u
  have whole : (s ++ t ++ u).toByteArray.data.toList = bytes s ++ (bytes t ++ bytes u) := by
    rw [← bytes, bytes_append, bytes_append, List.append_assoc]
  rw [slice?, if_pos (by simp [starts, stops]), ByteArray.data_extract, Array.toList_extract,
    List.extract_eq_take_drop, whole, Nat.add_sub_cancel_left, ← length_bytes s, ← length_bytes t,
    List.drop_left, List.take_left]

/-- **A piece of a source** can be cut out of its text, if it shares no character with what is
around it. -/
theorem slice?_text {bs xs ys zs : List UInt8} (hbs : bs = xs ++ (ys ++ zs))
    (hxs : Separate xs (ys ++ zs)) (hys : Separate ys zs) :
    slice? (text bs) (recoded xs).length ((recoded xs).length + (recoded ys).length) =
      some (recoded ys) := by
  have pieces : text bs = text xs ++ text ys ++ text zs := by
    rw [hbs, text_append hxs, text_append hys, String.append_assoc]
  rw [recoded, recoded, length_bytes, length_bytes, pieces]
  exact slice?_append (text xs) (text ys) (text zs)

end Slice

end LoxLexer.Utf8

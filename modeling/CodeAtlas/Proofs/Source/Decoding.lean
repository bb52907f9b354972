import CodeAtlas.Source.Bytes
import Mathlib.Data.List.TakeWhile

/-!
# Decoding and encoding

Reading bytes as text and writing the text as bytes again.

* `Text.codes_ofCodes`: a row of codes is read off the text that was made of it.
* `Source.encode_of_decode`: bytes that were decoded are the encoding of what they were decoded to.
* `Source.decode_append`: pieces that can be decoded one by one can be decoded in a row.
* `Source.slice_append`: neighbouring slices of a source join.
* `Source.pointAt_eq`: a point is counted along the row of bytes.
-/

namespace CodeAtlas

/-! ## §1. Codes of a text that was made of codes. -/

namespace Text

theorem toNat_ofNat_of_isValid {n : Nat} (h : n.isValidChar) : (Char.ofNat n).toNat = n := by
  rw [Char.ofNat, dif_pos h]
  rfl

theorem escapeDigit_toNat (n : Nat) : (escapeDigit n).toNat = firstDigit + n % 16 := by
  have hlt : n % 16 < 16 := Nat.mod_lt _ (by decide)
  have hvalid : (firstDigit + n % 16).isValidChar := by
    right
    simp only [firstDigit]
    omega
  exact toNat_ofNat_of_isValid hvalid

/-- The number of an escape is read off its three digits. -/
theorem codesFrom_digits (n : Nat) (h : n < 4096) (rest : List Char) :
    codesFrom 3 0 (escapeDigit (n / 256) :: escapeDigit (n / 16) :: escapeDigit n :: rest)
      = ofEscapeNumber n :: codesFrom 0 0 rest := by
  have hvalue : ∀ k, (escapeDigit k).toNat - firstDigit = k % 16 := by
    intro k
    rw [escapeDigit_toNat]
    omega
  simp only [codesFrom, hvalue]
  rw [if_neg (by decide), if_neg (by decide), if_pos trivial]
  rw [show 16 * (16 * (16 * 0 + n / 256 % 16) + n / 16 % 16) + n % 16 = n from by omega]

/-- A code has an escape whose number leads back to it. -/
theorem escapeNumber?_some {code n : Nat} (h : escapeNumber? code = some n) :
    n < 4096 ∧ ofEscapeNumber n = code := by
  unfold escapeNumber? isSurrogate firstDigit at h
  unfold ofEscapeNumber firstDigit
  by_cases hs : (0xD800 ≤ code && code < 0xE000) = true
  · rw [if_pos hs] at h
    injection h with h
    simp only [Bool.and_eq_true, decide_eq_true_eq] at hs
    rw [if_pos (by omega)]
    omega
  · rw [if_neg hs] at h
    by_cases hd : 0x10FF00 ≤ code ∧ code ≤ 0x10FF00 + 16
    · rw [if_pos hd] at h
      injection h with h
      rw [if_neg (by omega)]
      omega
    · rw [if_neg hd] at h
      exact absurd h (by simp)

/-- A code without an escape stands as a character of its own, which is not the mark. -/
theorem escapeNumber?_none {code : Nat} (hlt : code < 0x110000) (h : escapeNumber? code = none) :
    (Char.ofNat code).toNat = code ∧ Char.ofNat code ≠ escapeMark := by
  unfold escapeNumber? isSurrogate firstDigit at h
  by_cases hs : (0xD800 ≤ code && code < 0xE000) = true
  · rw [if_pos hs] at h
    exact absurd h (by simp)
  · rw [if_neg hs] at h
    by_cases hd : 0x10FF00 ≤ code ∧ code ≤ 0x10FF00 + 16
    · rw [if_pos hd] at h
      exact absurd h (by simp)
    · simp only [Bool.and_eq_true, decide_eq_true_eq] at hs
      have hvalid : code.isValidChar := by
        unfold Nat.isValidChar
        omega
      have hcode := toNat_ofNat_of_isValid hvalid
      refine ⟨hcode, ?_⟩
      intro heq
      have hmark : code = 0x10FF10 := by
        rw [← hcode, heq]
        decide
      omega

theorem codesFrom_ofCode {code : Nat} (h : code < 0x110000) (rest : List Char) :
    codesFrom 0 0 (ofCode code ++ rest) = code :: codesFrom 0 0 rest := by
  cases hn : escapeNumber? code with
  | some n =>
    obtain ⟨hlt, hback⟩ := escapeNumber?_some hn
    simp only [ofCode, hn, List.cons_append, List.nil_append]
    rw [codesFrom, if_pos rfl, codesFrom_digits n hlt, hback]
  | none =>
    obtain ⟨hcode, hmark⟩ := escapeNumber?_none h hn
    simp only [ofCode, hn, List.cons_append, List.nil_append]
    rw [codesFrom, if_neg hmark, hcode]

/-- **A row of codes is read off the text that was made of it.** -/
theorem codes_ofCodes (l : List Nat) (h : ∀ code ∈ l, code < 0x110000) : codes (ofCodes l) = l := by
  simp only [codes, ofCodes, String.toList_ofList]
  induction l with
  | nil => rfl
  | cons code l ih =>
    rw [List.flatMap_cons, codesFrom_ofCode (h code List.mem_cons_self),
      ih fun c hc => h c (List.mem_cons_of_mem _ hc)]

theorem toNat_lt_limit (c : Char) : c.toNat < 0x110000 := by
  rcases c.valid with h | h
  · exact Nat.lt_trans h (by decide)
  · exact h.2

theorem codes_ofChars (cs : List Char) : codes (ofChars cs) = cs.map Char.toNat := by
  apply codes_ofCodes
  intro code hcode
  obtain ⟨c, -, rfl⟩ := List.mem_map.mp hcode
  exact toNat_lt_limit c

/-! ## §2. Bytes. -/

/-- A code that is a character has the bytes of UTF-8. -/
theorem bytesOf_toNat (c : Char) : bytesOf c.toNat = String.utf8EncodeChar c := by
  have hlt := toNat_lt_limit c
  have hval : c.val.toNat = c.toNat := rfl
  unfold bytesOf String.utf8EncodeChar
  dsimp only
  rw [hval]
  -- one to four bytes; both sides take the same digits, but add the marks in another order
  by_cases h1 : c.toNat < 0x80
  · rw [if_pos h1, if_pos (Nat.le_of_lt_succ h1)]
  rw [if_neg h1, if_neg (show ¬ c.toNat ≤ 0x7f by omega)]
  by_cases h2 : c.toNat < 0x800
  · rw [if_pos h2, if_pos (Nat.le_of_lt_succ h2),
      show 0xC0 + c.toNat / 64 = c.toNat / 64 % 0x20 + 0xC0 from by omega,
      show 0x80 + c.toNat / 1 % 64 = c.toNat % 0x40 + 0x80 from by omega]
  rw [if_neg h2, if_neg (show ¬ c.toNat ≤ 0x7ff by omega)]
  by_cases h3 : c.toNat < 0x10000
  · rw [if_pos h3, if_pos (Nat.le_of_lt_succ h3),
      show 0xE0 + c.toNat / 4096 = c.toNat / 4096 % 0x10 + 0xE0 from by omega,
      show 0x80 + c.toNat / 64 % 64 = c.toNat / 64 % 0x40 + 0x80 from by omega,
      show 0x80 + c.toNat / 1 % 64 = c.toNat % 0x40 + 0x80 from by omega]
  rw [if_neg h3, if_neg (show ¬ c.toNat ≤ 0xffff by omega),
    show 0xF0 + c.toNat / 262144 = c.toNat / 262144 % 0x08 + 0xF0 from by omega,
    show 0x80 + c.toNat / 4096 % 64 = c.toNat / 4096 % 0x40 + 0x80 from by omega,
    show 0x80 + c.toNat / 64 % 64 = c.toNat / 64 % 0x40 + 0x80 from by omega,
    show 0x80 + c.toNat / 1 % 64 = c.toNat % 0x40 + 0x80 from by omega]

/-- Characters have no surrogate among them. -/
theorem surrogateRun?_ofChars (cs : List Char) : surrogateRun? (ofChars cs) = none := by
  have hplain : ∀ code ∈ codes (ofChars cs), (!isSurrogate code) = true := by
    intro code hcode
    rw [codes_ofChars] at hcode
    obtain ⟨c, -, rfl⟩ := List.mem_map.mp hcode
    unfold isSurrogate
    have hval : c.val.toNat = c.toNat := rfl
    rcases c.valid with h | h
    · have hlow : c.toNat < 0xD800 := h
      simp only [Bool.not_eq_true', Bool.and_eq_false_iff, decide_eq_false_iff_not]
      omega
    · have hhigh : 0xDFFF < c.toNat := h.1
      simp only [Bool.not_eq_true', Bool.and_eq_false_iff, decide_eq_false_iff_not]
      omega
  unfold surrogateRun?
  dsimp only
  rw [List.takeWhile_eq_self_iff.mpr hplain, List.drop_length]

end Text

/-! ## §3. Sources. -/

namespace Source

/-- Bytes are decoded to the characters that they encode. -/
theorem decode_eq_ok_iff {b : ByteArray} {s : String} :
    decode b = .ok s ↔ ∃ cs : List Char, b = cs.utf8Encode ∧ s = Text.ofChars cs := by
  unfold decode String.fromUTF8?
  -- valid bytes are the encoding of one row of characters only, so decoding can find no other
  by_cases h : b.IsValidUTF8
  · rw [dif_pos h]
    have hbytes : (String.fromUTF8 b h).toList.utf8Encode = b := String.utf8Encode_toList
    constructor
    · intro heq
      injection heq with heq
      exact ⟨(String.fromUTF8 b h).toList, hbytes.symm, heq.symm⟩
    · rintro ⟨cs, hb, rfl⟩
      have hcs : (String.fromUTF8 b h).toList = cs := by
        rw [← String.toList_ofList (l := cs)]
        congr 1
        exact String.toByteArray_inj.mp hb
      show Except.ok (Text.ofChars (String.fromUTF8 b h).toList) = _
      rw [hcs]
  · rw [dif_neg h]
    constructor
    · intro heq
      exact absurd heq (by simp)
    · rintro ⟨cs, rfl, -⟩
      exact absurd ⟨cs, rfl⟩ h

/-- **Pieces that can be decoded one by one can be decoded in a row.** -/
theorem decode_append {a b : ByteArray} {s t : String} (ha : decode a = .ok s)
    (hb : decode b = .ok t) : decode (a ++ b) = .ok (s ++ t) := by
  obtain ⟨xs, rfl, rfl⟩ := decode_eq_ok_iff.mp ha
  obtain ⟨ys, rfl, rfl⟩ := decode_eq_ok_iff.mp hb
  exact decode_eq_ok_iff.mpr
    ⟨xs ++ ys, List.utf8Encode_append.symm, (Text.ofChars_append xs ys).symm⟩

/-- **Bytes that were decoded are the encoding of what they were decoded to.** -/
theorem encode_of_decode {b : ByteArray} {s : String} (h : decode b = .ok s) :
    encode s = .ok b := by
  obtain ⟨cs, rfl, rfl⟩ := decode_eq_ok_iff.mp h
  have hbytes : Text.bytes (Text.ofChars cs) = cs.flatMap String.utf8EncodeChar := by
    unfold Text.bytes
    rw [Text.codes_ofChars, List.flatMap_map]
    congr 1
    funext c
    exact Text.bytesOf_toNat c
  unfold encode
  rw [Text.surrogateRun?_ofChars, hbytes]
  show Except.ok (ByteArray.mk _) = Except.ok _
  congr 1
  exact ByteArray.ext List.data_toByteArray.symm

/-- Offsets that are not negative keep their order. -/
theorem clamp_le_clamp (size : Nat) {a b : Int} (ha : 0 ≤ a) (hab : a ≤ b) :
    clamp size a ≤ clamp size b := by
  unfold clamp
  rw [if_neg (by omega), if_neg (by omega)]
  omega

/-- Neighbouring slices of a source join. -/
theorem slice_append (source : ByteArray) {a b c : Int} (ha : 0 ≤ a) (hab : a ≤ b) (hbc : b ≤ c) :
    slice source a b ++ slice source b c = slice source a c :=
  (ByteArray.extract_eq_extract_append_extract _ (clamp_le_clamp _ ha hab)
    (clamp_le_clamp _ (by omega) hbc)).symm

/-- What is cut out between neighbouring offsets can be cut out at once. -/
theorem cut_append {source : ByteArray} {a b c : Int} {s t : String} (ha : 0 ≤ a) (hab : a ≤ b)
    (hbc : b ≤ c) (hs : cut source a b = .ok s) (ht : cut source b c = .ok t) :
    cut source a c = .ok (s ++ t) := by
  unfold cut at *
  rw [← slice_append source ha hab hbc]
  exact decode_append hs ht

/-- Nothing is cut out between an offset and itself. -/
theorem cut_self (source : ByteArray) (a : Int) : cut source a a = .ok "" := by
  have hempty : slice source a a = ByteArray.empty := by
    unfold slice
    simp
  unfold cut
  rw [hempty]
  exact decode_eq_ok_iff.mpr ⟨[], List.utf8Encode_nil.symm, rfl⟩

/-! ## §4. Points. -/

theorem toList_loop_eq (bytes : ByteArray) (i : Nat) (row : List UInt8) :
    ByteArray.toList.loop bytes i row = row.reverse ++ bytes.data.toList.drop i := by
  induction h : bytes.size - i generalizing i row with
  | zero =>
    have hlength : bytes.data.toList.length ≤ i := show bytes.size ≤ i by omega
    unfold ByteArray.toList.loop
    rw [if_neg (by omega), List.drop_eq_nil_of_le hlength, List.append_nil]
  | succ n ih =>
    have hlt : i < bytes.size := by omega
    have hlength : i < bytes.data.toList.length := hlt
    have hget : bytes.get! i = bytes.data.toList[i] := getElem!_pos bytes.data i hlt
    unfold ByteArray.toList.loop
    rw [if_pos hlt, ih (i + 1) _ (by omega), List.drop_eq_getElem_cons hlength, hget,
      List.reverse_cons, List.append_assoc, List.singleton_append]

/-- **A point is counted along the row of bytes,** which takes no search for each of them. -/
theorem pointAt_eq (source : ByteArray) (offset : Nat) :
    pointAt source offset =
      let (row, lineStart) := lineFeeds (source.data.toList.take offset)
      ⟨row, offset - lineStart⟩ := by
  have htake : (source.extract 0 offset).toList = source.data.toList.take offset := by
    unfold ByteArray.toList
    rw [toList_loop_eq, ByteArray.data_extract, Array.toList_extract]
    simp
  unfold pointAt
  rw [htake]

end Source

end CodeAtlas

import CodeAtlas.Json.Reader
import CodeAtlas.Json.Writer
import CodeAtlas.Proofs.Source.Decoding

/-!
# Reading what was written

A text is written code by code, and each code is read back piece by piece: as it stands, after a
backslash, or as one or two units of four digits each.  Blanks and line ends between the parts of a
list or an object are no tokens, so that the layout of the file leaves no trace.

Two units that are a surrogate pair are read as one code, also where they were written for two codes
that are no characters.  What is read is therefore the text itself if all its codes are those of
characters, and in any case a text.

Main results:
  * `Json.lexes_writeText`: a written text is one token;
  * `Json.reread_ofChars`: a text of characters is read as it was written;
  * `Json.parse_indented_strings`: an object with a list of texts is read as it was written.
-/

namespace CodeAtlas.Json

open Text (codes ofChars hexDigits)

/-! ## §1. Digits of a unit. -/

theorem hexValue?_digitChar : ∀ d < 16, hexValue? (Nat.digitChar d) = some d := by
  decide

/-- A unit is written in four digits. -/
theorem hexDigits_four {u : Nat} (h : u < 0x10000) :
    hexDigits 4 u = [Nat.digitChar (u / 4096), Nat.digitChar (u / 256 % 16),
      Nat.digitChar (u / 16 % 16), Nat.digitChar (u % 16)] := by
  -- as many digits as it takes, and zeros in front of them
  have hmore : ∀ n, 16 ≤ n →
      Nat.toDigits 16 n = Nat.toDigits 16 (n / 16) ++ [Nat.digitChar (n % 16)] :=
    fun n hn => Nat.toDigits_of_base_le (by omega) hn
  have hone : ∀ n, n < 16 → Nat.toDigits 16 n = [Nat.digitChar n] :=
    fun n hn => Nat.toDigits_of_lt_base hn
  have hzero : Nat.digitChar 0 = '0' := rfl
  have h256 : u / 16 / 16 = u / 256 := by omega
  have h4096 : u / 16 / 16 / 16 = u / 4096 := by omega
  unfold hexDigits
  by_cases h₁ : u < 16
  · rw [hone u h₁, show u / 4096 = 0 from by omega, show u / 256 % 16 = 0 from by omega,
      show u / 16 % 16 = 0 from by omega, show u % 16 = u from by omega, hzero]
    rfl
  · rw [hmore u (by omega)]
    by_cases h₂ : u / 16 < 16
    · rw [hone (u / 16) h₂, show u / 4096 = 0 from by omega, show u / 256 % 16 = 0 from by omega,
        show u / 16 % 16 = u / 16 from by omega, hzero]
      rfl
    · rw [hmore (u / 16) (by omega)]
      by_cases h₃ : u / 16 / 16 < 16
      · rw [hone (u / 16 / 16) h₃, h256, show u / 4096 = 0 from by omega,
          show u / 256 % 16 = u / 256 from by omega, hzero]
        rfl
      · rw [hmore (u / 16 / 16) (by omega), hone (u / 16 / 16 / 16) (by omega), h4096, h256]
        rfl

/-! ## §2. Pieces of a text. -/

theorem lex_cons (mode : LexMode) (rev : List Token) (c : Char) (cs : List Char) :
    lex mode rev (c :: cs) = lex (lexStep mode rev c).1 (lexStep mode rev c).2 cs := by
  cases mode <;> rfl

/-- Four digits are read as a unit. -/
theorem lex_unitEscape {u : Nat} (h : u < 0x10000) (pieces : List Piece) (rev : List Token)
    (rest : List Char) :
    lex (.inText pieces) rev (unitEscape u ++ rest)
      = lex (.inText (.unit u :: pieces)) rev rest := by
  have hdigit : ∀ left code d, d < 16 →
      lexStep (.unit pieces left code) rev (Nat.digitChar d)
        = if left ≤ 1 then (.inText (.unit (16 * code + d) :: pieces), rev)
          else (.unit pieces (left - 1) (16 * code + d), rev) := by
    intro left code d hd
    simp only [lexStep, hexValue?_digitChar d hd]
  have hmark : lexStep (.inText pieces) rev '\\' = (.escape pieces, rev) := rfl
  have hu : lexStep (.escape pieces) rev 'u' = (.unit pieces 4 0, rev) := rfl
  rw [unitEscape, hexDigits_four h]
  simp only [List.cons_append, List.nil_append, lex_cons, hmark, hu]
  rw [hdigit 4 0 _ (by omega), if_neg (by omega), hdigit 3 _ _ (by omega), if_neg (by omega),
    hdigit 2 _ _ (by omega), if_neg (by omega), hdigit 1 _ _ (by omega), if_pos (by omega)]
  rw [show 16 * (16 * (16 * (16 * 0 + u / 4096) + u / 256 % 16) + u / 16 % 16) + u % 16 = u from by
    omega]

/-- Is a code written as its character, with a backslash in front of it or without? -/
def isShort (code : Nat) : Bool :=
  code = 8 || code = 9 || code = 10 || code = 12 || code = 13 || (32 ≤ code && code < 127)

/-- The pieces that a written code is read as. -/
def piecesOf (code : Nat) : List Piece :=
  if isShort code then [.plain (Char.ofNat code)]
  else if code < 0x10000 then [.unit code]
  else [.unit (0xD800 + (code - 0x10000) / 0x400), .unit (0xDC00 + (code - 0x10000) % 0x400)]

/-- A short code stands as its character, or behind a backslash as the letter for it. -/
theorem escapeCode_short {code : Nat} (hlt : code < 127) (hshort : isShort code = true) :
    (escapeCode code = [Char.ofNat code] ∧ Char.ofNat code ≠ '"' ∧ Char.ofNat code ≠ '\\' ∧
      ¬ (Char.ofNat code).toNat < 32) ∨
    ∃ letter, escapeCode code = ['\\', letter] ∧ letter ≠ 'u' ∧
      shortEscape? letter = some (Char.ofNat code) := by
  -- the letters are few, so that all of them are tried for each code
  have hall : ∀ code < 127, isShort code = true →
      (escapeCode code = [Char.ofNat code] ∧ Char.ofNat code ≠ '"' ∧ Char.ofNat code ≠ '\\' ∧
        ¬ (Char.ofNat code).toNat < 32) ∨
      (['"', '\\', 'b', 'f', 'n', 'r', 't'].any fun letter =>
        escapeCode code = ['\\', letter] ∧ letter ≠ 'u' ∧
          shortEscape? letter = some (Char.ofNat code)) = true := by
    decide +kernel
  obtain hplain | hletter := hall code hlt hshort
  · exact Or.inl hplain
  · obtain ⟨letter, -, h⟩ := List.any_eq_true.1 hletter
    exact Or.inr ⟨letter, of_decide_eq_true h⟩

/-- Any other code is written by its number. -/
theorem escapeCode_long {code : Nat} (h : isShort code = false) :
    escapeCode code = if code < 0x10000 then unitEscape code
      else unitEscape (0xD800 + (code - 0x10000) / 0x400)
        ++ unitEscape (0xDC00 + (code - 0x10000) % 0x400) := by
  -- a code that is no character counts as the character zero
  have hcode : ∀ c : Char, c.toNat ≠ 0 → Char.ofNat code = c → code = c.toNat := by
    intro c hc heq
    by_cases hvalid : code.isValidChar
    · rw [← heq, Text.toNat_ofNat_of_isValid hvalid]
    · rw [← heq, Char.ofNat, dif_neg hvalid] at hc
      exact absurd rfl hc
  have hne : ∀ c : Char, c.toNat ≠ 0 → isShort c.toNat = true → Char.ofNat code ≠ c := by
    intro c hc hshort heq
    rw [hcode c hc heq, hshort] at h
    cases h
  simp only [isShort, Bool.or_eq_false_iff, Bool.and_eq_false_iff, decide_eq_false_iff_not] at h
  unfold escapeCode
  dsimp only
  rw [if_neg (hne '"' (by decide) (by decide)), if_neg (hne '\\' (by decide) (by decide)),
    if_neg (hne '\n' (by decide) (by decide)), if_neg (hne '\r' (by decide) (by decide)),
    if_neg (hne '\t' (by decide) (by decide)), if_neg (by omega), if_neg (by omega),
    if_neg (by omega)]

/-- **One code.**  It is read as its pieces. -/
theorem lex_escapeCode {code : Nat} (h : code < 0x200000) (pieces : List Piece) (rev : List Token)
    (rest : List Char) :
    lex (.inText pieces) rev (escapeCode code ++ rest)
      = lex (.inText ((piecesOf code).reverse ++ pieces)) rev rest := by
  unfold piecesOf
  cases hshort : isShort code with
  | true =>
    have hascii : code < 127 := by
      simp only [isShort, Bool.or_eq_true, Bool.and_eq_true, decide_eq_true_eq] at hshort
      omega
    rw [if_pos rfl]
    obtain ⟨hplain, hquote, hbackslash, hlow⟩ | ⟨letter, hescape, hu, hletter⟩ :=
      escapeCode_short hascii hshort
    · rw [hplain]
      simp only [List.cons_append, List.nil_append, lex_cons, lexStep, if_neg hquote,
        if_neg hbackslash, if_neg hlow]
      rfl
    · have hmark : lexStep (.inText pieces) rev '\\' = (.escape pieces, rev) := rfl
      rw [hescape]
      simp only [List.cons_append, List.nil_append, lex_cons, hmark]
      simp only [lexStep, if_neg hu, hletter]
      rfl
  | false =>
    rw [escapeCode_long hshort, if_neg Bool.false_ne_true]
    by_cases hunit : code < 0x10000
    · rw [if_pos hunit, if_pos hunit, lex_unitEscape hunit]
      rfl
    · rw [if_neg hunit, if_neg hunit, List.append_assoc, lex_unitEscape (by omega),
        lex_unitEscape (by omega)]
      rfl

/-- The text that is read where a text was written. -/
def reread (s : String) : String :=
  String.ofList (joinPieces ((codes s).flatMap piecesOf))

theorem lex_escapeCodes (row : List Nat) (h : ∀ code ∈ row, code < 0x200000)
    (pieces : List Piece) (rev : List Token) (rest : List Char) :
    lex (.inText pieces) rev (row.flatMap escapeCode ++ rest)
      = lex (.inText ((row.flatMap piecesOf).reverse ++ pieces)) rev rest := by
  induction row generalizing pieces with
  | nil => rfl
  | cons code row ih =>
    rw [List.flatMap_cons, List.append_assoc, lex_escapeCode (h code List.mem_cons_self),
      ih fun c hc => h c (List.mem_cons_of_mem _ hc)]
    simp

/-! ## §3. Codes of any text. -/

/-- The codes of a text are not much larger than those of characters, even if escapes are broken in
it. -/
theorem codesFrom_lt (cs : List Char) (left n : Nat)
    (h : left = 0 ∨ left = 3 ∧ n = 0 ∨ left = 2 ∧ n < 256 ∨ left = 1 ∧ n < 4352) :
    ∀ code ∈ Text.codesFrom left n cs, code < 0x200000 := by
  have hnumber : ∀ k < 0x20000, Text.ofEscapeNumber k < 0x200000 := by
    intro k hk
    unfold Text.ofEscapeNumber Text.firstDigit
    split <;> omega
  induction cs generalizing left n with
  | nil => simp [Text.codesFrom]
  | cons c cs ih =>
    have hc := Text.toNat_lt_limit c
    cases left with
    | zero =>
      rw [Text.codesFrom]
      split
      · exact ih 3 0 (by omega)
      · intro code hcode
        obtain rfl | hcode := List.mem_cons.1 hcode
        · omega
        · exact ih 0 0 (by omega) code hcode
    | succ left =>
      have hdigit : c.toNat - Text.firstDigit < 256 := by
        unfold Text.firstDigit
        omega
      rw [Text.codesFrom]
      split
      · intro code hcode
        obtain hlast | hcode := List.mem_cons.1 hcode
        · rw [hlast]
          exact hnumber _ (by omega)
        · exact ih 0 0 (by omega) code hcode
      · exact ih left _ (by omega)

theorem codes_lt (s : String) : ∀ code ∈ codes s, code < 0x200000 :=
  codesFrom_lt s.toList 0 0 (Or.inl rfl)

/-- A unit that is no half of a surrogate pair is a code by itself. -/
theorem joinPieces_unit {u : Nat} (h : Text.isSurrogate u = false) (rest : List Piece) :
    joinPieces (.unit u :: rest) = Text.ofCode u ++ joinPieces rest := by
  simp only [Text.isSurrogate, Bool.and_eq_false_iff, decide_eq_false_iff_not] at h
  cases rest with
  | nil => rw [joinPieces]; simp
  | cons piece rest =>
    cases piece with
    | plain c => rw [joinPieces]; simp
    | unit lo => rw [joinPieces, if_neg (by omega)]

/-- The pieces of a character are put together to the character. -/
theorem joinPieces_char (c : Char) (rest : List Piece) :
    joinPieces (piecesOf c.toNat ++ rest) = Text.ofCode c.toNat ++ joinPieces rest := by
  have hvalid : c.toNat < 0xD800 ∨ 0xE000 ≤ c.toNat ∧ c.toNat < 0x110000 := by
    obtain h | ⟨h, h'⟩ := c.valid
    · exact Or.inl h
    · exact Or.inr ⟨by show 0xE000 ≤ c.val.toNat; omega, h'⟩
  unfold piecesOf
  cases hshort : isShort c.toNat with
  | true =>
    have hcode : Text.ofCode c.toNat = [c] := by
      simp only [isShort, Bool.or_eq_true, Bool.and_eq_true, decide_eq_true_eq] at hshort
      unfold Text.ofCode Text.escapeNumber? Text.isSurrogate Text.firstDigit
      rw [if_neg (by simp; omega), if_neg (by omega)]
      dsimp only
      rw [Char.ofNat_toNat]
    rw [if_pos rfl, hcode, Char.ofNat_toNat]
    rfl
  | false =>
    rw [if_neg Bool.false_ne_true]
    by_cases hunit : c.toNat < 0x10000
    · rw [if_pos hunit]
      apply joinPieces_unit
      simp only [Text.isSurrogate, Bool.and_eq_false_iff, decide_eq_false_iff_not]
      omega
    · -- the two halves of a pair
      rw [if_neg hunit]
      show joinPieces (.unit _ :: .unit _ :: rest) = _
      rw [joinPieces, if_pos (by omega), show 0x10000
        + (0xD800 + (c.toNat - 0x10000) / 0x400 - 0xD800) * 0x400
        + (0xDC00 + (c.toNat - 0x10000) % 0x400 - 0xDC00) = c.toNat from by omega]

/-- **A text of characters is read as it was written.** -/
theorem reread_ofChars (cs : List Char) : reread (ofChars cs) = ofChars cs := by
  rw [reread, Text.codes_ofChars, ofChars, Text.ofCodes]
  congr 1
  induction cs with
  | nil => rfl
  | cons c cs ih => rw [List.map_cons, List.flatMap_cons, List.flatMap_cons, joinPieces_char, ih]

/-! ## §4. Tokens of a text. -/

/-- The characters are read as the tokens, whatever stands around them. -/
def Lexes (cs : List Char) (tokens : List Token) : Prop :=
  ∀ rev rest, lex .idle rev (cs ++ rest) = lex .idle (tokens.reverse ++ rev) rest

theorem Lexes.append {cs ds : List Char} {ts us : List Token} (h : Lexes cs ts) (h' : Lexes ds us) :
    Lexes (cs ++ ds) (ts ++ us) := by
  intro rev rest
  rw [List.append_assoc, h, h', List.reverse_append, List.append_assoc]

/-- Blanks and line ends are no tokens. -/
theorem lexes_gaps {cs : List Char} (h : ∀ c ∈ cs, isGap c = true) : Lexes cs [] := by
  induction cs with
  | nil => exact fun _ _ => rfl
  | cons c cs ih =>
    intro rev rest
    have hc : lexStep .idle rev c = (.idle, rev) := if_pos (h c List.mem_cons_self)
    rw [List.cons_append, lex_cons, hc]
    exact ih (fun d hd => h d (List.mem_cons_of_mem _ hd)) rev rest

theorem lexes_mark {c : Char} (h : isMark c = true) : Lexes [c] [.mark c] := by
  intro rev rest
  have hgap : ¬ isGap c = true := by
    simp only [isMark, Bool.or_eq_true, decide_eq_true_eq] at h
    obtain ((((rfl | rfl) | rfl) | rfl) | rfl) | rfl := h <;> decide
  have hc : lexStep .idle rev c = (.idle, .mark c :: rev) := by
    rw [lexStep, lexOutside, if_neg hgap, if_pos h]
  rw [List.cons_append, lex_cons, hc]
  rfl

/-- **A written text is one token.** -/
theorem lexes_writeText (s : String) : Lexes (writeText s).toList [.text (reread s)] := by
  intro rev rest
  have hopen : lexStep .idle rev '"' = (.inText [], rev) := rfl
  have hclose : ∀ pieces, lexStep (.inText pieces) rev '"'
      = (.idle, .text (String.ofList (joinPieces pieces.reverse)) :: rev) := fun _ => rfl
  rw [writeText, String.toList_ofList, List.cons_append, List.cons_append, List.append_assoc,
    lex_cons, hopen, lex_escapeCodes _ (codes_lt s), List.singleton_append, lex_cons, hclose,
    List.append_nil, List.reverse_reverse]
  rfl

section Rows

variable {β : Type} {text : β → String} {tokens : β → List Token}

/-- The tokens of items in a row, with commas between them. -/
def rowTokens (tokens : β → List Token) : List β → List Token
  | [] => []
  | b :: rest => tokens b ++ rest.flatMap fun b => .mark ',' :: tokens b

theorem lexes_join {sep : String} (hsep : Lexes sep.toList [.mark ','])
    (h : ∀ b, Lexes (text b).toList (tokens b)) (bs : List β) :
    Lexes (Text.join sep (bs.map text)).toList (rowTokens tokens bs) := by
  unfold Text.join
  rw [String.toList_intercalate]
  cases bs with
  | nil => exact fun _ _ => rfl
  | cons b bs =>
    induction bs generalizing b with
    | nil => simpa [rowTokens] using h b
    | cons b' bs ih =>
      have hrow := ((h b).append hsep).append (ih b')
      simpa [rowTokens, List.intercalate_cons_cons] using hrow

/-- Items between brackets are read without their layout. -/
theorem lexes_block {opening closing : String} {o c : Char}
    (hopening : Lexes opening.toList [.mark o]) (hclosing : Lexes closing.toList [.mark c])
    (h : ∀ b, Lexes (text b).toList (tokens b)) (level : Nat) (bs : List β) :
    Lexes (block opening closing level (bs.map text)).toList
      (.mark o :: rowTokens tokens bs ++ [.mark c]) := by
  have hbreak : Lexes ['\n'] [] := lexes_gaps (by simp [isGap])
  have hblanks : ∀ n, Lexes (List.replicate n ' ') [] := by
    intro n
    apply lexes_gaps
    intro c hc
    rw [List.eq_of_mem_replicate hc]
    rfl
  cases bs with
  | nil => simpa [block, rowTokens] using hopening.append hclosing
  | cons b bs =>
    have hsep : Lexes (",\n" ++ String.ofList (List.replicate (4 * (level + 1)) ' ')).toList
        [.mark ','] := by
      rw [String.toList_append, String.toList_ofList, String.toList_ofList]
      exact ((lexes_mark rfl).append hbreak).append (hblanks _)
    have hall := ((((hopening.append hbreak).append (hblanks (4 * (level + 1)))).append
      (lexes_join hsep h (b :: bs))).append hbreak).append
        ((hblanks (4 * level)).append hclosing)
    simpa [block] using hall

end Rows

/-! ## §5. The value of the tokens. -/

theorem build_cons {s next : BuildState} {t : Token} (h : buildStep s t = .ok next)
    (ts : List Token) : build s (t :: ts) = build next ts := by
  rw [build, h]

/-- **One item after the other.**  The items behind the first one go into the list that is open. -/
theorem build_items (xs : List String) (rev : List Json) (frames : List Frame)
    (more : List Token) :
    build { want := .more, frames := .list rev :: frames, value := .null }
        (xs.flatMap (fun x => [.mark ',', .text (reread x)]) ++ .mark ']' :: more)
      = build (complete (.arr (rev.reverse ++ xs.map fun x => .str (reread x))) frames) more := by
  induction xs generalizing rev with
  | nil =>
    rw [List.map_nil, List.append_nil]
    exact build_cons rfl more
  | cons x xs ih =>
    show build _ (.mark ',' :: .text (reread x) ::
      (xs.flatMap (fun x => [.mark ',', .text (reread x)]) ++ .mark ']' :: more)) = _
    rw [build_cons rfl, build_cons rfl]
    show build { want := .more, frames := .list (.str (reread x) :: rev) :: frames, value := .null }
      _ = _
    rw [ih]
    simp

/-- A list of texts is completed inside the frames that are open. -/
theorem build_strings (xs : List String) {frames : List Frame} (hframes : frames.length < mostOpen)
    (more : List Token) :
    build { want := .value, frames, value := .null }
        (.mark '[' :: rowTokens (fun x => [.text (reread x)]) xs ++ .mark ']' :: more)
      = build (complete (ofStrings (xs.map reread)) frames) more := by
  have hopen : buildStep { want := .value, frames, value := .null } (.mark '[')
      = .ok { want := .valueOrClose, frames := .list [] :: frames, value := .null } :=
    if_pos hframes
  rw [List.cons_append, build_cons hopen]
  cases xs with
  | nil => exact build_cons rfl more
  | cons x xs =>
    show build _ (.text (reread x) ::
      (xs.flatMap (fun x => [.mark ',', .text (reread x)]) ++ .mark ']' :: more)) = _
    rw [build_cons rfl]
    show build { want := .more, frames := .list [.str (reread x)] :: frames, value := .null } _ = _
    rw [build_items]
    simp [ofStrings, Function.comp_def]

theorem indentedItems_strings (level : Nat) (xs : List String) :
    indentedItems level (xs.map .str) = xs.map writeText := by
  induction xs with
  | nil => rfl
  | cons x xs ih =>
    rw [List.map_cons, indentedItems, ih]
    rfl

/-- The tokens of a list of texts. -/
def stringsTokens (xs : List String) : List Token :=
  .mark '[' :: rowTokens (fun x => [.text (reread x)]) xs ++ [.mark ']']

theorem lexes_strings (level : Nat) (xs : List String) :
    Lexes (indentedAt level (ofStrings xs)).toList (stringsTokens xs) := by
  have hopening : Lexes "[".toList [.mark '['] := lexes_mark rfl
  have hclosing : Lexes "]".toList [.mark ']'] := lexes_mark rfl
  rw [ofStrings, indentedAt, indentedItems_strings]
  exact lexes_block hopening hclosing lexes_writeText level xs

/-- The tokens of fields that are lists of texts. -/
theorem lexes_fields (fields : List (String × List String)) :
    Lexes (Json.obj (fields.map fun f => (f.1, ofStrings f.2))).indented.toList
      (.mark '{' :: rowTokens (fun f => .text (reread f.1) :: .mark ':' :: stringsTokens f.2) fields
        ++ [.mark '}']) := by
  have hopening : Lexes "\x7b".toList [.mark '{'] := lexes_mark rfl
  have hclosing : Lexes "\x7d".toList [.mark '}'] := lexes_mark rfl
  have hblank : Lexes [' '] [] := lexes_gaps (by simp [isGap])
  have hcolon : Lexes ": ".toList [.mark ':'] := (lexes_mark rfl).append hblank
  have hfield : ∀ f : String × List String,
      Lexes (writeText f.1 ++ ": " ++ indentedAt 1 (ofStrings f.2)).toList
        (.text (reread f.1) :: .mark ':' :: stringsTokens f.2) := by
    intro f
    rw [String.toList_append, String.toList_append]
    exact ((lexes_writeText f.1).append hcolon).append (lexes_strings 1 f.2)
  have hfields : indentedFields 1 (fields.map fun f => (f.1, ofStrings f.2))
      = fields.map fun f => writeText f.1 ++ ": " ++ indentedAt 1 (ofStrings f.2) := by
    induction fields with
    | nil => rfl
    | cons f fields ih => rw [List.map_cons, indentedFields, ih, List.map_cons]
  rw [indented, indentedAt, hfields]
  exact lexes_block hopening hclosing hfield 0 fields

/-- **An object with a list of texts is read as it was written.** -/
theorem parse_indented_strings (key : String) (xs : List String) :
    parse (Json.obj [(key, ofStrings xs)]).indented
      = .ok (.obj [(reread key, ofStrings (xs.map reread))]) := by
  have hlex := lexes_fields [(key, xs)] [] []
  rw [List.append_nil, List.append_nil] at hlex
  have htokens : lex .idle [] (Json.obj [(key, ofStrings xs)]).indented.toList
      = .mark '{' :: .text (reread key) :: .mark ':' ::
        (.mark '[' :: rowTokens (fun x => [.text (reread x)]) xs ++ [.mark ']', .mark '}']) := by
    refine hlex.trans ?_
    simp [lex, rowTokens, stringsTokens]
  rw [parse, htokens, build_cons rfl, build_cons rfl, build_cons rfl]
  show build { want := .value, frames := [.object [] (reread key)], value := .null }
    (_ ++ .mark ']' :: [.mark '}']) = _
  have hdepth : [Frame.object [] (reread key)].length < mostOpen := by simp [mostOpen]
  rw [build_strings xs hdepth, build_cons rfl]
  rfl

end CodeAtlas.Json

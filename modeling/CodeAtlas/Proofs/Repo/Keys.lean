import CodeAtlas.Repo.FileTree
import CodeAtlas.Repo.Place
import Mathlib.Data.List.Nodup

/-!
# Files and scopes by their names

A file is known by the text of its path, and a scope of a repository by the text of its file and its
number.  Nothing is mixed up by that: a path is read back from its text, and where the text of a
scope can be read at all, it is read as the file and the number it was made of.

Main results:
  * `Text.readInt?_decimal`: a number is read back from its digits;
  * `RepoPlace.eq_of_decode_encode`: a scope is read back from its text;
  * `FilePath.ofText_text`: a path is read back from its text.
-/

namespace CodeAtlas

/-! ## §1. Searching in a text. -/

namespace Text

/-- A block of characters is found exactly if it stands somewhere in the row. -/
theorem occursIn_iff_infix {needle cs : List Char} :
    occursIn needle cs = true ↔ needle <:+: cs := by
  induction cs with
  | nil =>
    rw [occursIn, List.isEmpty_iff, List.infix_nil]
  | cons c cs ih =>
    rw [occursIn, Bool.or_eq_true, ih, List.isPrefixOf_iff_prefix, List.infix_cons_iff]

/-- A row that is cut consists of the two parts and what was cut out. -/
theorem append_of_cutAt {sep cs before after : List Char} (hsep : sep ≠ [])
    (h : cutAt sep cs = some (before, after)) : cs = before ++ sep ++ after := by
  induction cs generalizing before with
  | nil =>
    rw [cutAt, if_neg (by simpa using hsep)] at h
    cases h
  | cons c cs ih =>
    rw [cutAt] at h
    split at h
    · rename_i hprefix
      obtain ⟨rest, hrest⟩ := List.isPrefixOf_iff_prefix.1 hprefix
      cases h
      rw [← hrest, List.drop_left, List.nil_append]
    · obtain ⟨⟨before', after'⟩, hcut, heq⟩ := Option.map_eq_some_iff.1 h
      cases heq
      rw [ih hcut]
      rfl

/-- A row is parted at its last separator in one way. -/
theorem eq_of_append_last {sep : Char} {xs ys ds es : List Char}
    (h : xs ++ sep :: ds = ys ++ sep :: es) (hds : sep ∉ ds) (hes : sep ∉ es) :
    xs = ys ∧ ds = es := by
  obtain ⟨more, hmore, hrest⟩ | ⟨more, hmore, hrest⟩ := List.append_eq_append_iff.1 h
  · cases more with
    | nil => exact ⟨by simpa using hmore.symm, (List.cons.inj hrest).2⟩
    | cons c more =>
      have htail := (List.cons.inj hrest).2
      exact absurd (by rw [htail]; simp) hds
  · cases more with
    | nil => exact ⟨by simpa using hmore, (List.cons.inj hrest).2.symm⟩
    | cons c more =>
      have htail := (List.cons.inj hrest).2
      exact absurd (by rw [htail]; simp) hes

/-- So it is at its first one. -/
theorem eq_of_append_first {sep : Char} {xs ys ds es : List Char}
    (h : xs ++ sep :: ds = ys ++ sep :: es) (hxs : sep ∉ xs) (hys : sep ∉ ys) :
    xs = ys ∧ ds = es := by
  have hback := congrArg List.reverse h
  simp only [List.reverse_append, List.reverse_cons, List.append_assoc, List.singleton_append]
    at hback
  obtain ⟨hends, hstarts⟩ := eq_of_append_last hback (by simpa using hxs) (by simpa using hys)
  exact ⟨List.reverse_injective hstarts, List.reverse_injective hends⟩

/-! ## §2. Numbers. -/

theorem digit_toNat {c : Char} (h : c.isDigit = true) : 48 ≤ c.toNat ∧ c.toNat ≤ 57 :=
  Char.isDigit_iff_toNat.1 h

theorem digitValue?_digit {c : Char} (h : c.isDigit = true) :
    digitValue? c = some (c.toNat - 48) := by
  obtain ⟨hlow, hhigh⟩ := digit_toNat h
  have hfound : zeroDigits.find? (fun z => z ≤ c.toNat && c.toNat < z + 10) = some 48 := by
    unfold zeroDigits
    rw [List.find?_cons_of_pos]
    simp
    omega
  rw [digitValue?, hfound]
  rfl

/-- Digits in a row are read one by one. -/
theorem digitsOf?_digits {cs : List Char} (h : ∀ c ∈ cs, c.isDigit = true) (joined : Bool)
    (hsome : joined = true ∨ cs ≠ []) :
    digitsOf? joined cs = some (cs.map fun c => c.toNat - 48) := by
  induction cs generalizing joined with
  | nil =>
    obtain rfl | hne := hsome
    · rfl
    · exact absurd rfl hne
  | cons c cs ih =>
    have hdigit := h c List.mem_cons_self
    have hunderscore : c ≠ '_' := by
      rintro rfl
      cases hdigit
    rw [digitsOf?, if_neg hunderscore, digitValue?_digit hdigit]
    dsimp only
    rw [ih (fun d hd => h d (List.mem_cons_of_mem _ hd)) true (Or.inl rfl)]
    rfl

theorem isDigit_of_mem_toDigits {n : Nat} {c : Char} (h : c ∈ Nat.toDigits 10 n) :
    c.isDigit = true :=
  Nat.isDigit_of_mem_toDigits (by omega) (by omega) h

theorem repr_injective {m n : Nat} (h : Nat.repr m = Nat.repr n) : m = n := by
  have hdigits := congrArg String.toList h
  rw [Nat.toList_repr, Nat.toList_repr] at hdigits
  rw [← Nat.ofDigitChars_ten_toDigits (n := m), hdigits, Nat.ofDigitChars_ten_toDigits]

/-- A whole number is written with digits, and a minus sign if it is negative. -/
theorem mem_toList_decimal {n : Int} {c : Char} (h : c ∈ (decimal n).toList) :
    c = '-' ∨ c.isDigit = true := by
  unfold decimal at h
  cases n with
  | ofNat k =>
    dsimp only at h
    rw [Nat.toList_repr] at h
    exact Or.inr (isDigit_of_mem_toDigits h)
  | negSucc k =>
    dsimp only at h
    rw [String.toList_append, List.mem_append, Nat.toList_repr] at h
    obtain h | h := h
    · exact Or.inl (List.mem_singleton.1 h)
    · exact Or.inr (isDigit_of_mem_toDigits h)

/-- The digits of a number stand for the number, if there are not too many of them. -/
theorem readNat?_toDigits (n : Nat) :
    readNat? (Nat.toDigits 10 n)
      = if (Nat.toDigits 10 n).length ≤ mostDigits then some n else none := by
  have hdigits := digitsOf?_digits (fun c => isDigit_of_mem_toDigits (n := n)) false
    (Or.inr Nat.toDigits_ne_nil)
  have hvalue : ofDigits ((Nat.toDigits 10 n).map fun c => c.toNat - 48) = n := by
    rw [ofDigits, List.foldl_map]
    have hread := Nat.ofDigitChars_ten_toDigits (n := n)
    rw [Nat.ofDigitChars_eq_foldl] at hread
    exact hread
  rw [readNat?, hdigits, Option.bind_some, List.length_map, hvalue]

theorem isNumberBlank_digit {c : Char} (h : c.isDigit = true) : isNumberBlank c = false := by
  obtain ⟨hlow, hhigh⟩ := digit_toNat h
  have hblank : isBlank c = false := by
    simp [isBlank, inRanges, blankRanges]
    omega
  rw [isNumberBlank, hblank]
  rfl

theorem trimBoth_of_none {p : Char → Bool} {cs : List Char} (h : ∀ c ∈ cs, p c = false) :
    trimBoth p (String.ofList cs) = String.ofList cs := by
  have hfront : ∀ ds : List Char, (∀ c ∈ ds, p c = false) → ds.dropWhile p = ds := by
    intro ds hds
    cases ds with
    | nil => rfl
    | cons d ds => rw [List.dropWhile_cons_of_neg (by simp [hds d List.mem_cons_self])]
  rw [trimBoth, String.toList_ofList, hfront cs h,
    hfront cs.reverse (fun c hc => h c (List.mem_reverse.1 hc)), List.reverse_reverse]

/-- **Numbers are read back**, unless they have too many digits. -/
theorem readInt?_decimal (n : Nat) :
    readInt? (decimal n)
      = if (Nat.toDigits 10 n).length ≤ mostDigits then some (n : Int) else none := by
  have hdigit : ∀ c ∈ Nat.toDigits 10 n, c.isDigit = true := fun c => isDigit_of_mem_toDigits
  have htrim : trimBoth isNumberBlank (decimal n) = String.ofList (Nat.toDigits 10 n) := by
    show trimBoth isNumberBlank (Nat.repr n) = _
    rw [Nat.repr_eq_ofList_toDigits, trimBoth_of_none]
    intro c hc
    exact isNumberBlank_digit (hdigit c hc)
  rw [readInt?, htrim, String.toList_ofList]
  have hread := readNat?_toDigits n
  cases hcs : Nat.toDigits 10 n with
  | nil => exact absurd hcs Nat.toDigits_ne_nil
  | cons c cs =>
    rw [hcs] at hread hdigit
    have hfirst := hdigit c List.mem_cons_self
    -- a number does not begin with a sign
    split
    · cases ‹_›
      cases hfirst
    · cases ‹_›
      cases hfirst
    · rw [hread]
      split <;> rfl

end Text

/-! ## §3. Scopes. -/

namespace RepoPlace

/-- What is written is the text of the scope. -/
theorem write_ok {file : String} {scope : Nat} {id : String} :
    write file scope = .ok id ↔
      id = encode file scope ∧ (Nat.toDigits 10 scope).length ≤ Text.mostDigits := by
  unfold write
  rw [Int.natAbs_natCast]
  split
  · rename_i hsmall
    rw [Except.ok.injEq, eq_comm]
    exact (and_iff_left hsmall).symm
  · rename_i hlarge
    exact iff_of_false (by simp) fun h => hlarge h.2

theorem toList_encode (file : String) (scope : Nat) :
    (encode file scope).toList = file.toList ++ [':', ':'] ++ Nat.toDigits 10 scope := by
  show (file ++ "::" ++ Nat.repr scope).toList = _
  rw [Nat.repr_eq_ofList_toDigits]
  simp

theorem colon_not_mem_toDigits (n : Nat) : ':' ∉ Nat.toDigits 10 n := by
  intro h
  cases Text.isDigit_of_mem_toDigits h

/-- Two colons with only digits behind them are the last two colons of a row. -/
theorem append_colons_cases {front before after : List Char} {n : Nat}
    (h : front ++ [':', ':'] ++ Nat.toDigits 10 n = before ++ [':', ':'] ++ after) :
    (before = front ∧ after = Nat.toDigits 10 n) ∨ after = ':' :: Nat.toDigits 10 n ∨
      [':', ':'] <:+: after := by
  have hdigits := colon_not_mem_toDigits n
  rw [List.append_assoc, List.append_assoc, List.append_eq_append_iff] at h
  obtain ⟨more, hbefore, hmore⟩ | ⟨more, hfront, hmore⟩ := h
  · -- the cut is not in front of the colons: further back there are only digits
    cases more with
    | nil => exact Or.inl ⟨by simpa using hbefore, by simpa using hmore.symm⟩
    | cons x more =>
      exfalso
      apply hdigits
      cases more with
      | nil =>
        simp only [List.cons_append, List.nil_append, List.cons.injEq] at hmore
        rw [hmore.2.2]
        exact List.mem_cons_self
      | cons y more =>
        simp only [List.cons_append, List.nil_append, List.cons.injEq] at hmore
        rw [hmore.2.2]
        simp
  · -- the cut is in front of them, or shares one colon with them
    cases more with
    | nil => exact Or.inl ⟨by simpa using hfront.symm, by simpa using hmore⟩
    | cons x more =>
      refine Or.inr ?_
      cases more with
      | nil =>
        simp only [List.cons_append, List.nil_append, List.cons.injEq] at hmore
        exact Or.inl hmore.2.2
      | cons y more =>
        simp only [List.cons_append, List.nil_append, List.cons.injEq] at hmore
        refine Or.inr ⟨more, Nat.toDigits 10 n, ?_⟩
        rw [hmore.2.2]
        simp

/-- A text that begins with a colon is no number. -/
theorem readInt?_colon (cs : List Char) : Text.readInt? (String.ofList (':' :: cs)) = none := by
  have htrim : ∃ ds, (Text.trimBoth Text.isNumberBlank (String.ofList (':' :: cs))).toList
      = ':' :: ds := by
    rw [Text.trimBoth, String.toList_ofList, String.toList_ofList,
      List.dropWhile_cons_of_neg (by decide), List.reverse_cons, List.dropWhile_append]
    -- the colon is no blank, so that trimming from the back stops in front of it
    split
    · exact ⟨[], by rfl⟩
    · exact ⟨_, by rw [List.reverse_append, List.reverse_singleton, List.singleton_append]⟩
  obtain ⟨ds, hds⟩ := htrim
  rw [Text.readInt?, hds]
  rfl

/-- **Scopes are read back.**  What is read from the text of a scope is that scope. -/
theorem eq_of_decode_encode {file : String} {scope : Nat} {p : RepoPlace}
    (h : decode (encode file scope) = .ok p) : p = ⟨file, scope⟩ := by
  rw [decode, toList_encode] at h
  split at h
  · cases h
  · rename_i before after hcut
    have hrow := Text.append_of_cutAt (by simp) hcut
    split at h
    · cases h
    · rename_i honce
      rw [Text.occursIn_iff_infix] at honce
      obtain ⟨rfl, rfl⟩ | rfl | htwice := append_colons_cases hrow
      · have hnumber := Text.readInt?_decimal scope
        have hdecimal : Text.decimal scope = String.ofList (Nat.toDigits 10 scope) :=
          Nat.repr_eq_ofList_toDigits
        rw [← hdecimal, hnumber, String.ofList_toList] at h
        split at h
        · rename_i n hn
          split at hn
          · cases hn
            exact (Except.ok.inj h).symm
          · cases hn
        · cases h
      · rw [readInt?_colon] at h
        cases h
      · exact absurd htwice honce

end RepoPlace

/-! ## §4. Files. -/

namespace FilePath

/-- A path that is the path of a file: it has names, and these are not empty, have no slash in them,
and are no dot. -/
structure Proper (p : FilePath) : Prop where
  rootless : p.root = ""
  nonempty : p.names ≠ []
  names : ∀ n ∈ p.names, n ≠ "" ∧ n ≠ "." ∧ '/' ∉ n.toList

theorem toList_join (names : List String) :
    (Text.join "/" names).toList = ['/'].intercalate (names.map String.toList) := by
  rw [Text.join, String.toList_intercalate]
  rfl

/-- The names of a path are read back from the names in a row. -/
theorem namesOf_join {p : FilePath} (h : p.Proper) : namesOf (Text.join "/" p.names) = p.names := by
  have hsplit : (['/'].intercalate (p.names.map String.toList)).splitOn '/'
      = p.names.map String.toList := by
    apply List.splitOn_intercalate
    · intro l hl
      obtain ⟨n, hn, rfl⟩ := List.mem_map.1 hl
      exact (h.names n hn).2.2
    · simpa using h.nonempty
  rw [namesOf, Text.split, toList_join, hsplit, List.map_map]
  have hid : String.ofList ∘ String.toList = id := by
    funext s
    exact String.ofList_toList
  rw [hid, List.map_id, List.filter_eq_self]
  intro n hn
  simp [(h.names n hn).1, (h.names n hn).2.1]

theorem Proper.text_eq {p : FilePath} (h : p.Proper) : p.text = Text.join "/" p.names := by
  have hbare : p.bareText = Text.join "/" p.names := by
    rw [bareText, h.rootless, String.empty_append]
  have hne : Text.join "/" p.names ≠ "" := by
    intro hempty
    -- an empty text has no names in it
    have hnames := namesOf_join h
    rw [hempty] at hnames
    exact h.nonempty hnames.symm
  rw [text, hbare, if_neg hne]

/-- The names of a file in a row do not begin with a slash. -/
theorem rootOf_join {p : FilePath} (h : p.Proper) : rootOf (Text.join "/" p.names) = "" := by
  cases hnames : p.names with
  | nil => exact absurd hnames h.nonempty
  | cons n rest =>
    obtain ⟨hne, -, hslash⟩ := h.names n (by rw [hnames]; exact List.mem_cons_self)
    obtain ⟨c, cs, hcs⟩ := List.exists_cons_of_ne_nil (by simpa using hne : n.toList ≠ [])
    have hfirst : ∃ ds, (Text.join "/" (n :: rest)).toList = c :: ds := by
      rw [toList_join, List.map_cons, hcs]
      cases rest with
      | nil => exact ⟨cs, by simp⟩
      | cons m rest => exact ⟨cs ++ '/' :: ['/'].intercalate ((m :: rest).map String.toList), by simp⟩
    obtain ⟨ds, hds⟩ := hfirst
    have hc : c ≠ '/' := by
      rintro rfl
      rw [hcs] at hslash
      exact hslash List.mem_cons_self
    rw [rootOf, hds, List.takeWhile_cons_of_neg (by simpa using hc)]
    rfl

/-- **Paths are read back.** -/
theorem ofText_text {p : FilePath} (h : p.Proper) : ofText p.text = p := by
  show extend {} p.text = p
  rw [h.text_eq, extend, if_pos (rootOf_join h), namesOf_join h]
  obtain ⟨root, names⟩ := p
  have hrootless := h.rootless
  dsimp only at hrootless
  rw [hrootless]
  rfl

/-- The last name of a path ends its text. -/
theorem suffix_intercalate (ls : List (List Char)) (l : List Char) :
    l <:+ ['/'].intercalate (ls ++ [l]) := by
  induction ls with
  | nil => simp
  | cons a ls ih =>
    obtain ⟨b, rest, hrest⟩ := List.exists_cons_of_ne_nil (by simp : ls ++ [l] ≠ [])
    rw [List.cons_append, hrest, List.intercalate_cons_cons, ← hrest]
    exact ih.trans (List.suffix_append _ _)

end FilePath

namespace FileTree

/-- A tree as directories are: no two entries lie at the same place, and the places are paths. -/
structure Proper (t : FileTree) : Prop where
  distinct : (t.entries.map (·.place)).Nodup
  paths : ∀ e ∈ t.entries, e.filePath.Proper

/-- The opening file of a directory is told by its text. -/
theorem contains_opening (place : List String) :
    Text.contains "__init__.py" ({ names := place ++ ["__init__.py"] } : FilePath).text = true := by
  have hsuffix : "__init__.py".toList <:+ (Text.join "/" (place ++ ["__init__.py"])).toList := by
    rw [FilePath.toList_join, List.map_append]
    exact FilePath.suffix_intercalate _ _
  have hbare : ({ names := place ++ ["__init__.py"] } : FilePath).bareText
      = Text.join "/" (place ++ ["__init__.py"]) := String.empty_append
  have hne : Text.join "/" (place ++ ["__init__.py"]) ≠ "" := by
    intro hempty
    rw [hempty] at hsuffix
    exact absurd (List.suffix_nil.1 hsuffix) (by decide)
  rw [FilePath.text, hbare, if_neg hne, Text.contains, Text.occursIn_iff_infix]
  exact hsuffix.isInfix

/-- A file that was found and is not the opening file of a directory is one of the sources. -/
theorem source_of_find? {t : FileTree} {parts : List String} {file : FilePath}
    (h : t.find? parts = some file) (hopening : Text.contains "__init__.py" file.text = false) :
    ∃ e ∈ t.sources, e.filePath = file := by
  obtain ⟨e, hfind, rfl⟩ := Option.map_eq_some_iff.1 h
  by_cases hsource : e.isSource = true
  · refine ⟨e, List.mem_filter.2 ⟨List.mem_of_find?_eq_some hfind, hsource⟩, ?_⟩
    rw [standsFor, if_pos hsource]
  · rw [standsFor, if_neg hsource, contains_opening] at hopening
    cases hopening

theorem mem_entries_of_mem_sources {t : FileTree} {e : FileEntry} (h : e ∈ t.sources) :
    e ∈ t.entries :=
  (List.mem_filter.1 (List.mem_filter.1 h).1).1

/-- In a directory, a source is known by its path. -/
theorem Proper.eq_of_filePath {t : FileTree} (h : t.Proper) {e e' : FileEntry}
    (he : e ∈ t.sources) (he' : e' ∈ t.sources) (heq : e.filePath = e'.filePath) : e = e' :=
  List.inj_on_of_nodup_map h.distinct (mem_entries_of_mem_sources he)
    (mem_entries_of_mem_sources he') (FilePath.mk.inj heq).2

/-- In a directory, each path is that of one source. -/
theorem Proper.nodup_sources {t : FileTree} (h : t.Proper) :
    (t.sources.map (·.filePath)).Nodup := by
  refine List.Nodup.map_on (fun e he e' he' heq => h.eq_of_filePath he he' heq) ?_
  exact (List.Nodup.of_map _ h.distinct).filter _ |>.filter _

end FileTree

end CodeAtlas

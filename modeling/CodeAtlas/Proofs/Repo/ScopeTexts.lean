import CodeAtlas.Proofs.Repo.Links

/-!
# The texts of scopes

A scope of a repository is written as its file, two colons and its number, and the text is the node
of the scope in the map of the repository.  To read it, the text is cut at its first two colons.  So
colons within the file, or at its end, move the cut, and the scope is read back exactly if there are
none to move it.  Numbers are written, and read, up to a greatest count of digits.

Main results:
  * `Text.cutAt_eq_some_iff`: where a text is cut;
  * `Text.last_split`: the last piece of a text;
  * `RepoPlace.decode_encode_ok`: which texts of scopes can be read, and as what;
  * `RepoPlace.encode_injective`: different scopes have different texts;
  * `RepoPlace.scopes_by_text`: writing and reading scopes, and the nodes of a map.
-/

namespace CodeAtlas

/-! ## §1. Cutting a text. -/

namespace Text

variable {sep cs before after : List Char}

/-- What is in front of the last character of a separator begins the whole row. -/
theorem append_dropLast_prefix : before ++ sep.dropLast <+: before ++ sep ++ after := by
  rw [List.append_assoc]
  refine (List.prefix_append_right_inj before).2 ?_
  exact sep.dropLast_prefix.trans (List.prefix_append sep after)

/-- Nothing that would have been cut before stands in front of the cut, also not with a part of what
is cut out. -/
theorem not_infix_of_cutAt (hsep : sep ≠ []) (h : cutAt sep cs = some (before, after)) :
    ¬ sep <:+: before ++ sep.dropLast := by
  induction cs generalizing before with
  | nil =>
    rw [cutAt, if_neg (by simpa using hsep)] at h
    cases h
  | cons c cs ih =>
    have hwhole := append_of_cutAt hsep h
    rw [cutAt] at h
    split at h
    · -- the cut is right here, and a part of the separator is too short to hold it
      cases h
      intro hwithin
      have hlength := hwithin.length_le
      have hpositive := List.length_pos_iff.2 hsep
      simp only [List.nil_append, List.length_dropLast] at hlength
      omega
    · rename_i hbegins
      obtain ⟨⟨before', after'⟩, hcut, heq⟩ := Option.map_eq_some_iff.1 h
      cases heq
      rw [List.cons_append, List.infix_cons_iff]
      intro hwithin
      obtain hfront | hlater := hwithin
      · -- then the separator begins the whole row, and the cut would be right here
        apply hbegins
        rw [ List.isPrefixOf_iff_prefix, hwhole]
        have hbegin : (c :: before') ++ sep.dropLast <+: (c :: before') ++ sep ++ after :=
          append_dropLast_prefix
        exact hfront.trans hbegin
      · exact ih hcut hlater

/-- What is put together around a separator is cut there, if nothing in front is cut before. -/
theorem cutAt_append (hsep : sep ≠ []) (h : ¬ sep <:+: before ++ sep.dropLast) :
    cutAt sep (before ++ sep ++ after) = some (before, after) := by
  induction before with
  | nil =>
    obtain ⟨s, rest, rfl⟩ := List.exists_cons_of_ne_nil hsep
    have hbegins : (s :: rest).isPrefixOf (s :: (rest ++ after)) = true :=
      List.isPrefixOf_iff_prefix.2 ⟨after, rfl⟩
    show cutAt (s :: rest) (s :: (rest ++ after)) = some ([], after)
    rw [cutAt, if_pos hbegins]
    show some ([], ((s :: rest) ++ after).drop (s :: rest).length) = _
    rw [List.drop_left]
  | cons c before ih =>
    have hnot : ¬ sep.isPrefixOf (c :: (before ++ sep ++ after)) = true := by
      intro hbegins
      apply h
      rw [ List.isPrefixOf_iff_prefix] at hbegins
      -- the separator is no longer than what is in front of its last character
      have hlength : sep.length ≤ ((c :: before) ++ sep.dropLast).length := by
        simp only [List.length_append, List.length_cons, List.length_dropLast]
        omega
      have hfront : (c :: before) ++ sep.dropLast <+: c :: (before ++ sep ++ after) :=
        append_dropLast_prefix
      exact (List.prefix_of_prefix_length_le hbegins hfront hlength).isInfix
    have hlater : ¬ sep <:+: before ++ sep.dropLast := by
      intro hwithin
      exact h (List.infix_cons_iff.2 (Or.inr hwithin))
    show cutAt sep (c :: (before ++ sep ++ after)) = _
    rw [cutAt, if_neg hnot, ih hlater]
    rfl

/-- **Where a text is cut**: at the first separator. -/
theorem cutAt_eq_some_iff (hsep : sep ≠ []) :
    cutAt sep cs = some (before, after) ↔
      cs = before ++ sep ++ after ∧ ¬ sep <:+: before ++ sep.dropLast := by
  constructor
  · intro h
    exact ⟨append_of_cutAt hsep h, not_infix_of_cutAt hsep h⟩
  · intro h
    rw [h.1]
    exact cutAt_append hsep h.2

/-- **The last piece of a text** is what stands behind its last separator. -/
theorem last_split (sep : Char) (s : String) :
    ∃ last, (split sep s).getLast? = some last ∧ sep ∉ last.toList ∧
      (last = s ∨ ∃ front, s = front ++ String.singleton sep ++ last) := by
  unfold split
  by_cases hmem : sep ∈ s.toList
  · -- the first separator from the back
    obtain ⟨last, front, hback, hlast⟩ := List.eq_append_cons_of_mem (List.mem_reverse.2 hmem)
    have hlast' : sep ∉ last.reverse := by
      rw [List.mem_reverse]
      exact hlast
    have hs : s.toList = front.reverse ++ sep :: last.reverse := by
      rw [← s.toList.reverse_reverse, hback]
      simp
    refine ⟨String.ofList last.reverse, ?_, by rwa [String.toList_ofList], Or.inr ?_⟩
    · rw [hs, List.splitOn_append_cons_self, List.splitOn_eq_singleton hlast', List.map_append,
        List.map_singleton, List.getLast?_concat]
    · refine ⟨String.ofList front.reverse, ?_⟩
      apply String.toList_injective
      rw [hs]
      simp
  · refine ⟨s, ?_, hmem, Or.inl rfl⟩
    rw [List.splitOn_eq_singleton hmem, List.map_singleton, String.ofList_toList]
    rfl

end Text

/-! ## §2. The texts of scopes. -/

namespace RepoPlace

/-- Two colons are found in a text with one more colon behind it exactly if they stand in the text,
or the text ends in a colon. -/
theorem colons_infix_append {cs : List Char} :
    [':', ':'] <:+: cs ++ [':'] ↔ [':', ':'] <:+: cs ∨ [':'] <:+ cs := by
  rw [List.infix_concat_iff, or_comm, show [':', ':'] = [':'] ++ [':'] from rfl,
    List.suffix_append_inj_of_length_eq rfl]
  simp

/-- The number of a scope is read if it has not too many digits. -/
theorem readInt?_toDigits (scope : Nat) :
    Text.readInt? (String.ofList (Nat.toDigits 10 scope))
      = if (Nat.toDigits 10 scope).length ≤ 4300 then some (scope : Int) else none := by
  have hdecimal : Text.decimal scope = String.ofList (Nat.toDigits 10 scope) :=
    Nat.repr_eq_ofList_toDigits
  rw [← hdecimal]
  exact Text.readInt?_decimal scope

/-- **Which texts of scopes can be read, and as what.** -/
theorem decode_encode_ok {file : String} {scope : Nat} {p : RepoPlace} :
    decode (encode file scope) = .ok p ↔
      p = ⟨file, scope⟩ ∧ ¬ [':', ':'] <:+: file.toList ∧ ¬ [':'] <:+ file.toList ∧
        (Nat.toDigits 10 scope).length ≤ 4300 := by
  have hcut : ∀ before after, Text.cutAt [':', ':'] (encode file scope).toList
      = some (before, after) ↔ (encode file scope).toList = before ++ [':', ':'] ++ after ∧
        ¬ ([':', ':'] <:+: before ∨ [':'] <:+ before) := by
    intro before after
    rw [Text.cutAt_eq_some_iff (by simp), ← colons_infix_append]
    rfl
  constructor
  · intro h
    have hplace := eq_of_decode_encode h
    refine ⟨hplace, ?_⟩
    unfold decode at h
    split at h
    · cases h
    · rename_i before after hfound
      obtain ⟨hrow, hfirst⟩ := (hcut before after).1 hfound
      split at h
      · cases h
      · split at h
        · rename_i number hnumber
          rw [← Except.ok.inj h] at hplace
          obtain ⟨hfile, hscope⟩ := RepoPlace.mk.inj hplace
          have hbefore : before = file.toList := by
            rw [← hfile, String.toList_ofList]
          -- what is in front of the cut is the file, so that the digits are behind it
          have hafter : after = Nat.toDigits 10 scope := by
            rw [toList_encode, hbefore] at hrow
            exact (List.append_cancel_left hrow).symm
          rw [hafter, readInt?_toDigits] at hnumber
          rw [hbefore, not_or] at hfirst
          refine ⟨hfirst.1, hfirst.2, ?_⟩
          by_contra hlarge
          rw [if_neg hlarge] at hnumber
          cases hnumber
        · cases h
  · intro h
    obtain ⟨hplace, hcolons, hend, hsmall⟩ := h
    have honce : ¬ Text.occursIn [':', ':'] (Nat.toDigits 10 scope) = true := by
      rw [Text.occursIn_iff_infix]
      intro hwithin
      exact colon_not_mem_toDigits scope (hwithin.subset List.mem_cons_self)
    have hfound := (hcut file.toList (Nat.toDigits 10 scope)).2
      ⟨toList_encode file scope, not_or.2 ⟨hcolons, hend⟩⟩
    unfold decode
    rw [hfound]
    dsimp only
    rw [if_neg honce, readInt?_toDigits, if_pos hsmall, hplace, String.ofList_toList]

/-- **Different scopes have different texts**: the two colons are the last two, as only digits
follow them. -/
theorem encode_injective : Function.Injective fun p : String × Nat => encode p.1 p.2 := by
  intro p q h
  have hrow : p.1.toList ++ [':', ':'] ++ Nat.toDigits 10 p.2
      = q.1.toList ++ [':', ':'] ++ Nat.toDigits 10 q.2 := by
    rw [← toList_encode, ← toList_encode]
    exact congrArg String.toList h
  obtain ⟨hfile, hdigits⟩ | hcolon | hcolons := append_colons_cases hrow
  · have hscope : q.2 = p.2 := by
      calc q.2 = Nat.ofDigitChars 10 (Nat.toDigits 10 q.2) 0 :=
            Nat.ofDigitChars_ten_toDigits.symm
        _ = Nat.ofDigitChars 10 (Nat.toDigits 10 p.2) 0 := by rw [hdigits]
        _ = p.2 := Nat.ofDigitChars_ten_toDigits
    exact Prod.ext (String.toList_injective hfile).symm hscope.symm
  · exact absurd (hcolon ▸ List.mem_cons_self) (colon_not_mem_toDigits q.2)
  · exact absurd (hcolons.subset List.mem_cons_self) (colon_not_mem_toDigits q.2)

/-- The name of a file is what stands behind its last slash. -/
theorem name_after_last_slash (p : RepoPlace) :
    '/' ∉ p.name.toList ∧ (p.name = p.file ∨ ∃ directory, p.file = directory ++ "/" ++ p.name) := by
  obtain ⟨last, hlast, hslash, hwhole⟩ := Text.last_split '/' p.file
  have hname : p.name = last := by
    unfold name
    rw [hlast]
    rfl
  rw [hname]
  exact ⟨hslash, hwhole⟩

end RepoPlace

/-! ## §3. The nodes of a map. -/

/-- Each node of the map of a repository is the text of one scope of one file, and is read as
that. -/
theorem RepoMap.node_of_one_scope {w : FileImport.Setting} {readings : List Reading} {g : RepoMap}
    (htree : w.tree.Proper) (h : build w readings = .ok g) {id : String}
    (hid : id ∈ g.graph.nodes) :
    ∃ file : FilePath, ∃ scope : Nat, file.Proper ∧ id = RepoPlace.encode file.text scope ∧
      RepoPlace.decode id = .ok ⟨file.text, scope⟩ ∧
      ∀ (file' : FilePath) (scope' : Nat), file'.Proper →
        id = RepoPlace.encode file'.text scope' → file' = file ∧ scope' = scope := by
  obtain ⟨hjoins, hnodes, hread⟩ := build_grows htree h
  have hreadable := hread id hid
  -- a node is one of the two ends of an edge, and these are scopes of files
  have hscope : ∃ file : FilePath, ∃ scope : Nat, file.Proper ∧
      id = RepoPlace.encode file.text scope := by
    obtain ⟨u, v, hedge, hend⟩ := (hnodes id).1 hid
    obtain ⟨f, s, t, d, htied, hu, hv⟩ := (hjoins u v).1 hedge
    obtain ⟨hf, ht⟩ := htied.proper htree
    obtain hend | hend := hend
    · exact ⟨f, s, hf, hend.trans hu⟩
    · exact ⟨t, d, ht, hend.trans hv⟩
  obtain ⟨file, scope, hfile, hencode⟩ := hscope
  refine ⟨file, scope, hfile, hencode, ?_, ?_⟩
  · obtain ⟨place, hplace⟩ := hreadable
    rw [hencode] at hplace ⊢
    rw [hplace, RepoPlace.eq_of_decode_encode hplace]
  · intro file' scope' hfile' hencode'
    rw [hencode] at hreadable
    obtain ⟨hsame, hnumber⟩ := hreadable.eq_of_encode hfile hfile' (hencode.symm.trans hencode')
    exact ⟨hsame.symm, hnumber.symm⟩

namespace RepoPlace

/-- **Scopes by their texts.**  Exactly the scopes whose numbers have at most 4300 digits can be
written.  What was written can be read exactly if the file has no two colons in a row and does not end
in a colon; it is then read as the file and the number it was made of, and the name of the file is what
stands behind its last slash.  Different scopes are written differently, and a node of the map of a
repository stands for one scope. -/
theorem scopes_by_text :
    (∀ (file : String) (scope : Nat),
      (∃ id, write file scope = .ok id) ↔ (Nat.toDigits 10 scope).length ≤ 4300) ∧
    (∀ (file : String) (scope : Nat) (id : String), write file scope = .ok id →
      ((∃ p, decode id = .ok p) ↔ ¬ [':', ':'] <:+: file.toList ∧ ¬ [':'] <:+ file.toList) ∧
      ∀ p, decode id = .ok p →
        p.file = file ∧ p.scope = scope ∧
        '/' ∉ p.name.toList ∧
        (p.name = file ∨ ∃ directory, file = directory ++ "/" ++ p.name)) ∧
    (∀ (file file' : String) (scope scope' : Nat) (id : String), write file scope = .ok id →
      write file' scope' = .ok id → file = file' ∧ scope = scope') ∧
    ∀ (w : FileImport.Setting) (readings : List Reading) (g : RepoMap),
      w.tree.Proper → RepoMap.build w readings = .ok g → ∀ id ∈ g.graph.nodes,
        ∃ file : FilePath, ∃ scope : Nat, file.Proper ∧ id = encode file.text scope ∧
          decode id = .ok ⟨file.text, scope⟩ ∧
          ∀ (file' : FilePath) (scope' : Nat), file'.Proper →
            id = encode file'.text scope' → file' = file ∧ scope' = scope := by
  refine ⟨?_, ?_, ?_, ?_⟩
  · intro file scope
    simp only [write_ok, exists_eq_left]
    exact Iff.rfl
  · intro file scope id hid
    obtain ⟨rfl, hsmall⟩ := write_ok.1 hid
    refine ⟨?_, ?_⟩
    · constructor
      · rintro ⟨p, hp⟩
        obtain ⟨-, hcolons, hend, -⟩ := decode_encode_ok.1 hp
        exact ⟨hcolons, hend⟩
      · rintro ⟨hcolons, hend⟩
        exact ⟨⟨file, scope⟩, decode_encode_ok.2 ⟨rfl, hcolons, hend, hsmall⟩⟩
    · intro p hp
      obtain ⟨hfile, hscope⟩ := RepoPlace.mk.inj (decode_encode_ok.1 hp).1
      have hname := name_after_last_slash p
      rw [hfile] at hname
      exact ⟨hfile, hscope, hname⟩
  · intro file file' scope scope' id h h'
    obtain ⟨rfl, -⟩ := write_ok.1 h
    obtain ⟨hsame, -⟩ := write_ok.1 h'
    have hpair : (file, scope) = (file', scope') := encode_injective hsame
    exact Prod.mk.inj hpair
  · intro w readings g htree h id hid
    exact RepoMap.node_of_one_scope htree h hid

/-- A colon within the name of a file does no harm, one at its end does, and the call in `a.py` is
the only scope with its text. -/
theorem scopes_by_text_colons :
    (∃ id, write "d/a:b.py" 7 = .ok id ∧ ∃ p, decode id = .ok p ∧ p.file = "d/a:b.py" ∧ p.scope = 7) ∧
    (∃ id, write "a:" 7 = .ok id ∧ ¬ ∃ p, decode id = .ok p) ∧
    RepoMap.build RepoMap.twoFiles [RepoMap.caller, RepoMap.callee] = .ok RepoMap.twoFilesMap ∧
    ∀ (file : FilePath) (scope : Nat), file.Proper → "a.py::0" = encode file.text scope →
      file = { names := ["a.py"] } ∧ scope = 0 := by
  obtain ⟨hwritten, htexts, -, hnodes⟩ := scopes_by_text
  have hsmall : (Nat.toDigits 10 7).length ≤ 4300 := by decide
  refine ⟨?_, ?_, RepoMap.build_twoFiles, ?_⟩
  · obtain ⟨id, hid⟩ := (hwritten "d/a:b.py" 7).2 hsmall
    obtain ⟨hread, hplace⟩ := htexts _ _ id hid
    obtain ⟨p, hp⟩ := hread.2 ⟨by decide +kernel, by decide +kernel⟩
    obtain ⟨hfile, hscope, -⟩ := hplace p hp
    exact ⟨id, hid, p, hp, hfile, hscope⟩
  · obtain ⟨id, hid⟩ := (hwritten "a:" 7).2 hsmall
    obtain ⟨hread, -⟩ := htexts _ _ id hid
    refine ⟨id, hid, ?_⟩
    intro hdecoded
    exact (hread.1 hdecoded).2 (by decide)
  · intro file scope hfile htext
    obtain ⟨first, number, hfirst, -, -, honly⟩ := hnodes _ _ _ RepoMap.proper_twoFiles
      RepoMap.build_twoFiles "a.py::0" (by decide)
    have ha : ({ names := ["a.py"] } : FilePath).Proper :=
      RepoMap.proper_twoFiles.paths _ List.mem_cons_self
    obtain ⟨hsame, hnumber⟩ := honly file scope hfile htext
    obtain ⟨hsame', hnumber'⟩ := honly { names := ["a.py"] } 0 ha (by decide)
    exact ⟨hsame.trans hsame'.symm, hnumber.trans hnumber'.symm⟩

end RepoPlace

end CodeAtlas

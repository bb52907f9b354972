import CodeAtlas.Parse.SpanLedger
import CodeAtlas.Proofs.Graphs
import CodeAtlas.Proofs.Repo.Keys

/-!
# Names of spans

A span is named by the path of the block around it, a label and a running number, parted by colons.
Where no path has a colon in it, the parts can be read back from the name, since no label is a number.
Hence a name that is given out is a new one: the number behind a path and a label has not been
reached yet.

Main results:
  * `spelled_inj`: a name has one spelling;
  * `next_fresh`: the next name has not been given out;
  * `given_next`, `Given.next`: it is given out then, as are those before it;
  * `Counts.getElem?_issue`: which name each of several requests in a row gets;
  * `issue_distinct`: no two of them get the same name.
-/

namespace CodeAtlas.SpanNames

variable {names : SpanNames} {path path' : Path} {label label' : Option SpanLabel}
  {number number' : Option Nat}

/-! ## §1. The parts of a name. -/

/-- A path whose text can be told from what follows it in a name. -/
def Clean (path : Path) : Prop :=
  ':' ∉ path.text.toList

/-- A path is clean if its names are. -/
theorem clean_iff : Clean path ↔ ∀ name ∈ path, ':' ∉ name.toList := by
  unfold Clean Path.text Text.join
  rw [String.toList_intercalate]
  induction path with
  | nil => simp
  | cons name rest ih =>
    cases rest with
    | nil => simp
    | cons next rest =>
      rw [List.map_cons, List.map_cons, List.intercalate_cons_cons, ← List.map_cons]
      rw [List.forall_mem_cons, ← ih]
      simp

/-- The parts of a name before it is numbered. -/
def parts (path : Path) (label : Option SpanLabel) : List String :=
  match label with
  | some l => if path.text = "" then [l.text] else [path.text, l.text]
  | none => if path.text = "" then ["impl"] else [path.text]

/-- The name with the given parts and number, if it has one. -/
def spelled (path : Path) (label : Option SpanLabel) (number : Option Nat) : String :=
  Text.join ":" (parts path label ++ (number.map Nat.repr).toList)

theorem base_eq (path : Path) (label : Option SpanLabel) :
    base path label = Text.join ":" (parts path label) := by
  unfold base parts
  cases label with
  | none => dsimp only; split <;> rfl
  | some l => dsimp only; split <;> rfl

theorem spelled_none (path : Path) (label : Option SpanLabel) :
    spelled path label none = base path label := by
  rw [base_eq, spelled, Option.map_none, Option.toList_none, List.append_nil]

theorem spelled_some (path : Path) (label : Option SpanLabel) (k : Nat) :
    spelled path label (some k) = base path label ++ ":" ++ Nat.repr k := by
  rw [base_eq]
  unfold spelled parts
  cases label with
  | none => dsimp only; split <;> rfl
  | some l => dsimp only; split <;> rfl

theorem parts_ne_nil (path : Path) (label : Option SpanLabel) : parts path label ≠ [] := by
  unfold parts
  cases label with
  | none => dsimp only; split <;> simp
  | some l => dsimp only; split <;> simp

/-! ## §2. A name has one spelling. -/

/-- No label is a number. -/
theorem label_ne_repr (l : SpanLabel) (n : Nat) : l.text ≠ Nat.repr n := by
  intro h
  have hchars := congrArg String.toList h
  rw [Nat.toList_repr] at hchars
  cases l with
  | docstring =>
    have hmem : 'd' ∈ Nat.toDigits 10 n := hchars ▸ List.mem_cons_self
    exact absurd (Text.isDigit_of_mem_toDigits hmem) (by decide)
  | imports =>
    have hmem : 'i' ∈ Nat.toDigits 10 n := hchars ▸ List.mem_cons_self
    exact absurd (Text.isDigit_of_mem_toDigits hmem) (by decide)

theorem colon_not_mem_parts (h : Clean path) :
    ∀ x ∈ parts path label ++ (number.map Nat.repr).toList, ':' ∉ x.toList := by
  have hlabel : ∀ l : SpanLabel, ':' ∉ l.text.toList := by
    intro l
    cases l <;> decide
  intro x hx
  rcases List.mem_append.mp hx with hx | hx
  · unfold parts at hx
    cases label with
    | none =>
      dsimp only at hx
      split at hx
      · rw [List.mem_singleton.mp hx]
        decide
      · rw [List.mem_singleton.mp hx]
        exact h
    | some l =>
      dsimp only at hx
      split at hx
      · rw [List.mem_singleton.mp hx]
        exact hlabel l
      · rcases List.mem_pair.mp hx with rfl | rfl
        · exact h
        · exact hlabel l
  · rw [Option.mem_toList, Option.map_eq_some_iff] at hx
    obtain ⟨n, -, rfl⟩ := hx
    rw [Nat.toList_repr]
    exact RepoPlace.colon_not_mem_toDigits n

/-- The parts of a name are read back from it. -/
theorem splitOn_spelled (h : Clean path) :
    (spelled path label number).toList.splitOn ':'
      = (parts path label ++ (number.map Nat.repr).toList).map String.toList := by
  rw [spelled, Text.join, String.toList_intercalate]
  apply List.splitOn_intercalate
  · intro cs hcs
    obtain ⟨x, hx, rfl⟩ := List.mem_map.mp hcs
    exact colon_not_mem_parts h x hx
  · simp [parts_ne_nil]

/-- Parts without a number are no other parts with one. -/
theorem parts_ne_numbered (n : Nat) : parts path label ≠ parts path' label' ++ [Nat.repr n] := by
  intro h
  obtain ⟨x, more, hx⟩ := List.exists_cons_of_ne_nil (parts_ne_nil path' label')
  rw [hx] at h
  have hlast : Nat.repr n ∈ (parts path label).tail := by
    rw [h]
    simp
  unfold parts at hlast
  cases label with
  | none =>
    dsimp only at hlast
    split at hlast <;> simp at hlast
  | some l =>
    dsimp only at hlast
    split at hlast
    · simp at hlast
    · exact label_ne_repr l n (List.mem_singleton.mp hlast).symm

/-- **A name has one spelling.** -/
theorem spelled_inj (h : Clean path) (h' : Clean path')
    (heq : spelled path label number = spelled path' label' number') :
    base path label = base path' label' ∧ number = number' := by
  have hparts : parts path label ++ (number.map Nat.repr).toList
      = parts path' label' ++ (number'.map Nat.repr).toList := by
    have hsplit : (spelled path label number).toList.splitOn ':'
        = (spelled path' label' number').toList.splitOn ':' := by rw [heq]
    rw [splitOn_spelled h, splitOn_spelled h'] at hsplit
    exact List.map_injective_iff.mpr (fun _ _ => String.toList_injective) hsplit
  rw [base_eq, base_eq]
  cases number with
  | none =>
    cases number' with
    | none =>
      simp only [Option.map_none, Option.toList_none, List.append_nil] at hparts
      exact ⟨congrArg _ hparts, rfl⟩
    | some n' =>
      simp only [Option.map_none, Option.toList_none, List.append_nil] at hparts
      exact absurd hparts (parts_ne_numbered n')
  | some n =>
    cases number' with
    | none =>
      simp only [Option.map_none, Option.toList_none, List.append_nil] at hparts
      exact absurd hparts.symm (parts_ne_numbered n)
    | some n' =>
      obtain ⟨hsame, hdigits⟩ := List.append_inj' hparts rfl
      rw [Text.repr_injective (List.singleton_injective hdigits)]
      exact ⟨congrArg _ hsame, rfl⟩

/-! ## §3. New names. -/

/-- A name that has been given out: its number has been reached. -/
def Given (names : SpanNames) (name : String) : Prop :=
  ∃ path label number count, Clean path ∧ name = spelled path label number
    ∧ Assoc.get? (base path label) names = some count ∧ ∀ n, number = some n → n ≤ count

/-- How often a name has been asked for after the next one was given out. -/
theorem get?_next (names : SpanNames) (path : Path) (label : Option SpanLabel) (name : String) :
    Assoc.get? name (names.next path label).2
      = if base path label == name then
          some ((Assoc.get? (base path label) names).elim 1 (· + 1))
        else Assoc.get? name names := by
  unfold next
  dsimp only
  cases Assoc.get? (base path label) names with
  | none => exact Assoc.get?_put _ _ _ _
  | some n => exact Assoc.get?_put _ _ _ _

theorem next_name (names : SpanNames) (path : Path) (label : Option SpanLabel) :
    (names.next path label).1
      = spelled path label ((Assoc.get? (base path label) names).map (· + 1)) := by
  unfold next
  dsimp only
  cases Assoc.get? (base path label) names with
  | none => exact (spelled_none path label).symm
  | some n => exact (spelled_some path label (n + 1)).symm

/-- **The next name is a new one.** -/
theorem next_fresh (h : Clean path) : ¬ names.Given (names.next path label).1 := by
  rintro ⟨path', label', number, count, hclean, hname, hcount, hreached⟩
  rw [next_name] at hname
  obtain ⟨hbase, hnumber⟩ := spelled_inj h hclean hname
  rw [hbase, hcount] at hnumber
  have hle := hreached (count + 1) hnumber.symm
  omega

theorem given_next (h : Clean path) :
    SpanNames.Given (names.next path label).2 (names.next path label).1 := by
  refine ⟨path, label, _, (Assoc.get? (base path label) names).elim 1 (· + 1), h,
    next_name names path label, ?_, ?_⟩
  · rw [get?_next, if_pos BEq.rfl]
  · intro n hn
    cases hcount : Assoc.get? (base path label) names with
    | none =>
      rw [hcount] at hn
      cases hn
    | some k =>
      rw [hcount] at hn
      exact Nat.le_of_eq (Option.some.inj hn).symm

/-- What has been given out stays so. -/
theorem Given.next {name : String} (h : names.Given name) (path : Path) (label : Option SpanLabel) :
    SpanNames.Given (names.next path label).2 name := by
  obtain ⟨path', label', number, count, hclean, hname, hcount, hreached⟩ := h
  by_cases hsame : base path label = base path' label'
  · refine ⟨path', label', number, count + 1, hclean, hname, ?_, ?_⟩
    · rw [get?_next, if_pos (beq_iff_eq.mpr hsame), hsame, hcount]
      rfl
    · intro n hn
      exact Nat.le_succ_of_le (hreached n hn)
  · refine ⟨path', label', number, count, hclean, hname, ?_, hreached⟩
    rw [get?_next, if_neg (by simpa using hsame), hcount]

/-! ## §4. Rows of names. -/

/-- A block for which the name of a span is asked, and the label that the span is to have. -/
abbrev Request := NewBlock × Option SpanLabel

/-- The name that is asked for, before it is numbered. -/
def Request.base (r : Request) : String :=
  SpanNames.base r.1.structurePath r.2

/-- The names that are given out to requests in a row. -/
def issue : SpanNames → List Request → List String
  | _, [] => []
  | names, r :: rest =>
    (names.next r.1.structurePath r.2).1 :: issue (names.next r.1.structurePath r.2).2 rest

/-- How often a name has been asked for, if at all. -/
def timesAsked (requests : List Request) (name : String) : Option Nat :=
  match requests.countP fun r => r.base = name with
  | 0 => none
  | n + 1 => some (n + 1)

theorem timesAsked_concat (requests : List Request) (r : Request) (name : String) :
    timesAsked (requests ++ [r]) name
      = if r.base = name then some ((timesAsked requests name).elim 1 (· + 1))
        else timesAsked requests name := by
  unfold timesAsked
  rw [List.countP_append, List.countP_singleton]
  by_cases h : r.base = name
  · rw [if_pos (by simpa using h), if_pos h]
    cases List.countP (fun r => r.base = name) requests <;> rfl
  · rw [if_neg (by simpa using h), if_neg h, Nat.add_zero]

/-- The names keep count of the requests. -/
def Counts (names : SpanNames) (requests : List Request) : Prop :=
  ∀ name, Assoc.get? name names = timesAsked requests name

/-- After the next name they count one request more. -/
theorem Counts.next {requests : List Request} (h : names.Counts requests) (r : Request) :
    Counts (names.next r.1.structurePath r.2).2 (requests ++ [r]) := by
  intro name
  rw [get?_next, timesAsked_concat, h, h name]
  show (if r.base == name then _ else _) = _
  by_cases hname : r.base = name
  · subst hname
    simp [Request.base]
  · simp [hname]

/-- **Each request gets its name with the number of those that asked for it before**: the first one
gets it plain, the later ones count on from 2. -/
theorem Counts.getElem?_issue {requests : List Request} (h : names.Counts requests)
    (rest : List Request) (k : Nat) :
    (issue names rest)[k]? = rest[k]?.map fun r => spelled r.1.structurePath r.2
      ((timesAsked (requests ++ rest.take k) r.base).map (· + 1)) := by
  induction rest generalizing names requests k with
  | nil => rfl
  | cons r rest ih =>
    rw [issue]
    cases k with
    | zero =>
      rw [List.getElem?_cons_zero, List.getElem?_cons_zero, Option.map_some, next_name, h,
        List.take_zero, List.append_nil]
      rfl
    | succ k =>
      rw [List.getElem?_cons_succ, List.getElem?_cons_succ, ih (h.next r), List.append_assoc]
      rfl

/-- Names that are given out in a row are new, and each of them comes once. -/
theorem issue_fresh {requests : List Request} (h : ∀ r ∈ requests, Clean r.1.structurePath) :
    (∀ name ∈ issue names requests, ¬ names.Given name) ∧ (issue names requests).Nodup := by
  induction requests generalizing names with
  | nil => exact ⟨List.forall_mem_nil _, List.nodup_nil⟩
  | cons r rest ih =>
    obtain ⟨hclean, hrest⟩ := List.forall_mem_cons.1 h
    obtain ⟨hfresh, honce⟩ := @ih (names.next r.1.structurePath r.2).2 hrest
    rw [issue, List.forall_mem_cons, List.nodup_cons]
    refine ⟨⟨next_fresh hclean, ?_⟩, ?_, honce⟩
    · -- what is not given out in the end was not before
      intro name hname hgiven
      exact hfresh name hname (hgiven.next _ _)
    · intro hagain
      exact hfresh _ hagain (given_next hclean)

/-- **No name is given out twice.**  Whichever blocks ask, in whichever order and with whichever
labels, they get names that differ, as long as there is no colon in the names of the classes and
functions around them.  It does not matter that plain names and numbered ones, labels, `impl` and the
names of classes are all of one kind: a request gets the name that it asks for and the number of those
that asked for it before. -/
theorem issue_distinct (requests : List Request)
    (h : ∀ r ∈ requests, ∀ name ∈ r.1.structurePath, ':' ∉ name.toList) :
    (issue [] requests).Nodup
    ∧ ∀ k : Nat, (issue [] requests)[k]? = requests[k]?.map fun r => spelled r.1.structurePath r.2
        ((timesAsked (requests.take k) r.base).map (· + 1)) := by
  refine ⟨(issue_fresh fun r hr => clean_iff.2 (h r hr)).2, fun k => ?_⟩
  have hstart : Counts [] [] := fun _ => rfl
  exact hstart.getElem?_issue requests k

/-- A request for a block right below a module. -/
def asking (kind : BlockKind) (name : String) (label : Option SpanLabel) : Request :=
  ({ id := 1, kind, path := [name], startLine := 1, endLine := 1, tokens := 1,
     above := [{ id := 0, kind := .moduleDef, name := none, path := [], relationships := [] }] },
   label)

/-- An import and a class named `imports`, a statement and a class named `impl`, and a class that asks
with and without a label, each of them again. -/
def sharedNames : List Request :=
  [asking .importStmt "os" (some .imports), asking .classDef "imports" none, asking .code "x" none,
   asking .classDef "impl" none, asking .classDef "a" (some .docstring), asking .classDef "a" none,
   asking .classDef "a" none, asking .classDef "a" (some .docstring)]

theorem issue_distinct_sharedNames :
    issue [] sharedNames
      = ["imports", "imports:2", "impl", "impl:2", "a:docstring", "a", "a:2", "a:docstring:2"]
    ∧ (issue [] sharedNames).Nodup :=
  ⟨by decide, (issue_distinct sharedNames (by decide)).1⟩

end CodeAtlas.SpanNames

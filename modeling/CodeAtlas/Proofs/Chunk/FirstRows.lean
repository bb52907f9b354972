import CodeAtlas.Proofs.Chunk.ShortNames
import CodeAtlas.Proofs.Repo.Backing
import CodeAtlas.Proofs.Repo.ScopeTexts
import CodeAtlas.Proofs.Scope.SmallestScope

/-!
# Chunks further down in a file

The references of a chunk are looked up by their rows in its content, and the row of the file in
which the content begins is never added to them.  So each chunk is treated as if it were the
beginning of its file: its references are looked up in scopes that begin among the first rows of the
file, as many as the content has, and what a function further down imports gives it no edges.

Main results:
  * `ChunkMap.refersIn_iff_standsIn_atTop`: the scopes in which references are looked up are those
    in which they would stand in a chunk that begins in row 0;
  * `ChunkMap.startRow_le_of_refersIn`: such a scope begins among the first rows of the file;
  * `ChunkMap.edgeless_of_below`: a chunk with fewer rows than there are above every scope with
    exports has no edges;
  * `ChunkMap.edgeless_lowerFunction`: a function with a reference and an export, and no edge.
-/

namespace CodeAtlas

/-! ## §1. Rows of a text. -/

namespace Source

/-- Line feeds are counted one by one. -/
theorem lineFeeds_go_rows (bytes : List UInt8) (rows lineStart offset : Nat) :
    (lineFeeds.go rows lineStart offset bytes).1 = rows + bytes.count 10 := by
  induction bytes generalizing rows lineStart offset with
  | nil => rfl
  | cons b bs ih =>
    rw [lineFeeds.go]
    by_cases hfeed : b = 10
    · rw [if_pos hfeed, ih, hfeed, List.count_cons_self]
      omega
    · rw [if_neg hfeed, ih, List.count_cons_of_ne hfeed]

/-- No point has more rows above it than the source has line feeds. -/
theorem row_pointAt_le (source : ByteArray) (offset : Nat) :
    (pointAt source offset).row ≤ source.data.toList.count 10 := by
  rw [pointAt_eq]
  show (lineFeeds.go 0 0 0 (source.data.toList.take offset)).1 ≤ _
  rw [lineFeeds_go_rows, Nat.zero_add]
  exact (List.take_sublist _ _).count_le _

end Source

/-- What is known about a source is about its bytes. -/
theorem Reading.data_find (readings : List Reading) (source : ByteArray) :
    (Reading.find readings source).source.data = source.data := by
  unfold Reading.find
  cases hfound : readings.reverse.find? fun r => r.source.data = source.data with
  | none => rfl
  | some r =>
    have hsame := List.find?_some hfound
    exact of_decide_eq_true hsame

/-- References begin in rows that the source has. -/
theorem Reading.startRow_le_of_references {r : Reading} {refs : List (String × SourceRange)}
    (h : r.references = .ok refs) {name : String} {range : SourceRange}
    (href : (name, range) ∈ refs) : range.startRow ≤ r.source.data.toList.count 10 := by
  obtain ⟨t, -, hread⟩ := (Outcome.mem_of_mapM h).1 href
  rw [Outcome.bind_ok] at hread
  obtain ⟨text, -, hread⟩ := hread
  cases Outcome.pure_ok.1 hread
  exact Int.ofNat_le.2 (Source.row_pointAt_le _ _)

/-- A scope that is found for a range begins no later than the range, or is the whole source. -/
theorem ScopeMap.Wired.startRow_scopeAt_le {g : ScopeMap} (wired : g.Wired) (range : SourceRange) :
    g.scopeAt range = root ∨
      ∃ found, g.rangeOf? (g.scopeAt range) = some found ∧ found.startRow ≤ range.startRow := by
  unfold scopeAt
  cases hfind : g.placed.enclosing? range with
  | none => exact Or.inl rfl
  | some i =>
    obtain ⟨found, hmem, hencloses, -⟩ := RowStore.enclosing?_some hfind
    refine Or.inr ⟨found, wired.rangeOf?_iff.2 hmem, ?_⟩
    have hlow : found.startRow * RowSpan.grains ≤ range.startRow * RowSpan.grains :=
      of_decide_eq_true (Bool.and_eq_true_iff.1 hencloses).1
    exact Int.le_of_mul_le_mul_right hlow (by decide)

/-! ## §2. Where references are looked up. -/

/-- The same range in a text that has more rows in front. -/
def SourceRange.down (range : SourceRange) (rows : Int) : SourceRange :=
  { range with startRow := range.startRow + rows, stopRow := range.stopRow + rows }

/-- The chunk, as if its content were the beginning of the file. -/
def ChunkEntry.atTop (c : ChunkEntry) : ChunkEntry :=
  { c with record := { c.record with startLine := 0 } }

/-- The last row of the content, counted from its first. -/
def ChunkEntry.lastRow (c : ChunkEntry) : Nat :=
  (Text.bytes c.content).count 10

namespace ChunkMap

variable {w : FileImport.Setting} {readings : List Reading} {repo : RepoMap} {c : ChunkEntry}

/-- The content of the chunk has a reference which stands in scope `s` of the file, if the content
begins in the first row of the chunk. -/
def StandsIn (w : FileImport.Setting) (readings : List Reading) (c : ChunkEntry) (s : Nat) : Prop :=
  ∃ scopes refs name range, RepoMap.HasScopes w readings c.record.file scopes ∧
    (Reading.find readings ⟨(Text.bytes c.content).toArray⟩).references = .ok refs ∧
    (name, range) ∈ refs ∧ scopes.scopeAt (range.down c.record.startLine) = s

/-- **The first row does not count.**  References are looked up where they would stand if the chunk
began in row 0; so they are looked up where they stand, if it does. -/
theorem refersIn_iff_standsIn_atTop {s : Nat} :
    RefersIn w readings c s ↔ StandsIn w readings c.atTop s := by
  have hsame : ∀ range : SourceRange, range.down c.atTop.record.startLine = range := by
    intro range
    show range.down 0 = range
    unfold SourceRange.down
    rw [Int.add_zero, Int.add_zero]
  unfold RefersIn StandsIn
  simp only [hsame]
  exact Iff.rfl

/-- **First rows of the file.**  The scope in which a reference is looked up is the whole file, or
begins in a row that the content has, too. -/
theorem startRow_le_of_refersIn {s : Nat} (h : RefersIn w readings c s) :
    s = ScopeMap.root ∨
      ∃ rows, HasRows w readings c.record.file s rows ∧ rows.startRow ≤ c.lastRow := by
  obtain ⟨scopes, refs, name, range, hscopes, hrefs, href, rfl⟩ := h
  obtain hroot | ⟨found, hfound, hle⟩ := hscopes.wired.startRow_scopeAt_le range
  · exact Or.inl hroot
  · have hrow := Reading.startRow_le_of_references hrefs href
    rw [Reading.data_find] at hrow
    exact Or.inr ⟨found, ⟨scopes, hscopes, hfound⟩, hle.trans hrow⟩

/-! ## §3. Edges that are lost. -/

/-- **Chunks without edges.**  If all scopes of the file from which edges of the repository lead
begin below as many rows as the content has, the chunk has no edges, whatever it refers to. -/
theorem edgeless_of_below {chunks : List (ChunkRecord × String)} {g : ChunkMap}
    (htree : w.tree.Proper) (hrepo : RepoMap.build w readings = .ok repo)
    (h : ofChunks repo readings chunks = .ok g) (hc : c ∈ entriesOf repo chunks)
    (hbelow : ∀ s t d, repo.HasEdge c.record.file s t d → s ≠ ScopeMap.root ∧
      ∀ rows, HasRows w readings c.record.file s rows → c.lastRow < rows.startRow)
    (b : ChunkEntry) : ¬ g.HasEdge c b := by
  obtain ⟨honce, hedges⟩ := ofChunks_edges htree hrepo h
  intro hedge
  obtain ⟨a, ha, b', t, d, rows, ⟨s, hrefers, hexport, -⟩, -, heq⟩ := (hedges _).1 hedge
  have hid : c.id = a.id := ChunkKey.named.inj (Prod.mk.inj (Prod.mk.inj heq).1).1
  obtain rfl : c = a := List.inj_on_of_nodup_map honce hc ha hid
  obtain ⟨hinner, hrows⟩ := hbelow s t d hexport
  obtain hroot | ⟨found, hfound, hle⟩ := startRow_le_of_refersIn hrefers
  · exact hinner hroot
  · have hlt := hrows found hfound
    omega

/-! ## §4. A function further down. -/

open RepoMap (pairOf proper_pairOf shadower shadowerScopes shadowedMap callee build_shadower)

/-- The second function of `a.py`, which begins in row 3, up to the row of its reference. -/
def lowerContent : String :=
  "def g():\n  foo = 1\n  print(foo)"

def lowerReading : Reading :=
  ⟨lowerContent.toUTF8, 0, 31,
    [⟨0, 31, "local.scope"⟩, ⟨11, 14, "local.definition.variable"⟩, ⟨27, 30, "local.reference"⟩]⟩

def lowerRecord : ChunkRecord :=
  { (wholeFile "a.py" "").1 with startLine := 3, endLine := 5 }

def lowerFunction : ChunkEntry :=
  ⟨"repo/a.py#1.2", lowerRecord, lowerContent⟩

/-- What is known of the two files and of the chunk. -/
def lowerReadings : List Reading :=
  [shadower, callee, lowerReading]

theorem build_lowerReadings :
    RepoMap.build (pairOf shadower callee) lowerReadings = .ok shadowedMap := by
  have hdiffer : ¬ lowerReading.source.data = shadower.source.data ∧
      ¬ lowerReading.source.data = callee.source.data ∧
      ¬ callee.source.data = shadower.source.data := by decide
  refine build_shadower ⟨?_, ?_⟩
  · simp [Reading.find, lowerReadings, hdiffer]
  · simp [Reading.find, lowerReadings, hdiffer]

theorem references_lowerFunction :
    (Reading.find lowerReadings ⟨(Text.bytes lowerFunction.content).toArray⟩).references =
      .ok [("foo", ⟨27, 30, 2, 8, 2, 11⟩)] := by decide +kernel

theorem entriesOf_lowerFunction :
    entriesOf shadowedMap [(lowerRecord, lowerContent)] = [lowerFunction] := by
  have hname : lowerRecord.shortName ["repo"] 1 = "repo/a.py#1.2" := by decide
  show [(⟨lowerRecord.shortName ["repo"] 1, _, _⟩ : ChunkEntry)] = _
  rw [hname]
  rfl

theorem file_lowerFunction : lowerFunction.record.file = { names := ["a.py"] } := by decide

theorem scopeAt_lowerFunction : shadowerScopes.scopeAt ⟨27, 30, 2, 8, 2, 11⟩ = 0 ∧
    shadowerScopes.scopeAt ⟨27, 30, 5, 8, 5, 11⟩ = 2 := by decide +kernel

/-- The whole file uses no exports, so that the reference adds nothing. -/
theorem ofChunks_lowerFunction :
    ofChunks shadowedMap lowerReadings [(lowerRecord, lowerContent)]
      = .ok (unlinked shadowedMap [(lowerRecord, lowerContent)]) := by
  have hrepo := (holds_unlinked shadowedMap [(lowerRecord, lowerContent)]).repo
  rw [ofChunks_eq, entriesOf_lowerFunction]
  generalize unlinked shadowedMap [(lowerRecord, lowerContent)] = start at hrepo
  have hlink : start.linkReference lowerFunction shadowerScopes ⟨27, 30, 2, 8, 2, 11⟩
      = .ok start := by
    refine Outcome.bind_ok.2 ⟨"a.py::0", ?_, Outcome.bind_ok.2 ⟨[], ?_, rfl⟩⟩
    · rw [file_lowerFunction, scopeAt_lowerFunction.1]
      decide
    · rw [hrepo]
      decide
  have hchunk : linkChunk lowerReadings start lowerFunction = .ok start := by
    refine Outcome.bind_ok.2 ⟨shadowerScopes, ?_,
      Outcome.bind_ok.2 ⟨_, references_lowerFunction, ?_⟩⟩
    · rw [hrepo]
      decide
    · rw [List.foldlM_cons]
      exact Outcome.bind_ok.2 ⟨start, hlink, rfl⟩
  rw [List.foldlM_cons]
  exact Outcome.bind_ok.2 ⟨start, hchunk, rfl⟩

/-- The reference in the second function of `a.py` stands in a scope that uses an export of `b.py`.
It is looked up in row 2 instead of row 5, and so in the whole file: the chunk has no edges. -/
theorem edgeless_lowerFunction :
    StandsIn (pairOf shadower callee) lowerReadings lowerFunction 2 ∧
      shadowedMap.HasEdge lowerFunction.record.file 2 { names := ["b.py"] } 1 ∧
      RefersIn (pairOf shadower callee) lowerReadings lowerFunction 0 ∧
      ∃ g, ofChunks shadowedMap lowerReadings [(lowerRecord, lowerContent)] = .ok g ∧
        ∀ b, ¬ g.HasEdge lowerFunction b := by
  have htree := proper_pairOf shadower callee
  have hscopes : ∀ {file scopes}, shadowedMap.scopeMap file = .ok scopes →
      RepoMap.HasScopes (pairOf shadower callee) lowerReadings file scopes :=
    (RepoMap.scopeMap_of_build htree build_lowerReadings).1
  have hfile : shadowedMap.scopeMap lowerFunction.record.file = .ok shadowerScopes := by decide
  refine ⟨⟨_, _, _, _, hscopes hfile, references_lowerFunction, List.mem_singleton.2 rfl,
    scopeAt_lowerFunction.2⟩, ?_, ⟨_, _, _, _, hscopes hfile, references_lowerFunction,
    List.mem_singleton.2 rfl, scopeAt_lowerFunction.1⟩, _, ofChunks_lowerFunction, ?_⟩
  · show (_, _) ∈ _
    decide
  · refine edgeless_of_below htree build_lowerReadings ofChunks_lowerFunction ?_ ?_
    · rw [entriesOf_lowerFunction]
      exact List.mem_singleton.2 rfl
    · intro s t d hexport
      -- the only edge of the repository leads from the second function, which begins in row 3
      have honly : shadowedMap.graph.edgeList
          = [((RepoPlace.encode lowerFunction.record.file.text 2, "b.py::1"), ())] := by
        decide +kernel
      unfold RepoMap.HasEdge at hexport
      rw [honly, List.mem_singleton, Prod.mk.injEq, Prod.mk.injEq] at hexport
      obtain rfl : s = 2 := (Prod.mk.inj (RepoPlace.encode_injective hexport.1.1)).2
      refine ⟨by decide, ?_⟩
      rintro rows ⟨scopes, hother, hrows⟩
      rw [← RepoMap.scopeMap_of_build htree build_lowerReadings, hfile] at hother
      cases hother
      obtain rfl : ⟨36, 74, 3, 0, 6, 6⟩ = rows := Option.some.inj hrows
      decide

end ChunkMap

end CodeAtlas

import CodeAtlas.Proofs.Chunk.Links

/-!
# The short names of chunks

A chunk is a node of its map under a short name: the last names of its path, its number among the
chunks and its size, with `#` and `.` between them.  The path may hold these signs as well, but what
follows the last `#` does not, and there the number comes first.  So the numbers are read back from the
names, and chunks with different numbers have different names.  Adding edges does not add nodes, since
an edge only runs between chunks that are there.

Main results:
  * `ChunkRecord.number_of_shortName`: a short name tells the number;
  * `ChunkMap.nodes_unlinked`: each chunk becomes a node of its own;
  * `ChunkMap.linkChunk_settled`: edges leave the nodes as they are;
  * `ChunkMap.nodes_ofChunks`: the nodes of a map of chunks.
-/

namespace CodeAtlas

/-! ## §1. What a short name tells. -/

namespace ChunkRecord

/-- What a short name begins with: the last two names of the path. -/
def place (r : ChunkRecord) (above : List String) : String :=
  let names := above ++ Text.split '/' r.filePath
  Text.join "/" (names.drop (names.length - 2))

/-- What stands behind the last `#` of a short name. -/
def mark (r : ChunkRecord) (number : Nat) : List Char :=
  Nat.toDigits 10 number ++ '.' :: (Text.decimal (r.endLine - r.startLine)).toList

theorem toList_shortName (r : ChunkRecord) (above : List String) (number : Nat) :
    (r.shortName above number).toList = (r.place above).toList ++ '#' :: r.mark number := by
  show (r.place above ++ "#" ++ Nat.repr number ++ "."
    ++ Text.decimal (r.endLine - r.startLine)).toList = _
  simp [mark, String.toList_append]

theorem hash_not_mem_mark (r : ChunkRecord) (number : Nat) : '#' ∉ r.mark number := by
  intro hmem
  obtain hdigit | hdot := List.mem_append.1 hmem
  · exact absurd (Text.isDigit_of_mem_toDigits hdigit) (by decide)
  · obtain hdot | hsize := List.mem_cons.1 hdot
    · exact absurd hdot (by decide)
    · exact absurd (Text.mem_toList_decimal hsize) (by decide)

theorem number_of_mark {r r' : ChunkRecord} {number number' : Nat}
    (h : r.mark number = r'.mark number') : number = number' := by
  have hdot : ∀ n : Nat, '.' ∉ Nat.toDigits 10 n := by
    intro n hmem
    exact absurd (Text.isDigit_of_mem_toDigits hmem) (by decide)
  obtain ⟨hdigits, -⟩ := Text.eq_of_append_first h (hdot number) (hdot number')
  rw [← Nat.toList_repr, ← Nat.toList_repr] at hdigits
  exact Text.repr_injective (String.toList_injective hdigits)

/-- **A short name tells the number of its chunk**, whatever the path and the size are. -/
theorem number_of_shortName {r r' : ChunkRecord} {above above' : List String} {number number' : Nat}
    (h : r.shortName above number = r'.shortName above' number') : number = number' := by
  -- the path may hold further `#`, so both names are cut at their last one
  have hchars := congrArg String.toList h
  rw [toList_shortName, toList_shortName] at hchars
  exact number_of_mark
    (Text.eq_of_append_last hchars (hash_not_mem_mark r number) (hash_not_mem_mark r' number')).2

end ChunkRecord

namespace ChunkMap

/-- The short names of chunks, numbered from 1. -/
def shortNames (above : List String) (chunks : List (ChunkRecord × String)) : List String :=
  (chunks.zipIdx 1).map fun chunk => chunk.1.1.shortName above chunk.2

theorem nodup_shortNames (above : List String) (chunks : List (ChunkRecord × String)) :
    (shortNames above chunks).Nodup := by
  have hnumbers : ((chunks.zipIdx 1).map (·.2)).Nodup := by
    rw [List.zipIdx_map_snd]
    exact List.nodup_range'
  refine List.Nodup.map_on ?_ (List.Nodup.of_map _ hnumbers)
  intro a ha b hb hname
  exact List.inj_on_of_nodup_map hnumbers ha hb (ChunkRecord.number_of_shortName hname)

theorem ids_entriesOf (repo : RepoMap) (chunks : List (ChunkRecord × String)) :
    (entriesOf repo chunks).map (·.id) = shortNames repo.tree.above chunks := by
  rw [entriesOf, List.map_map]
  rfl

theorem nodup_ids_entriesOf (repo : RepoMap) (chunks : List (ChunkRecord × String)) :
    ((entriesOf repo chunks).map (·.id)).Nodup :=
  ids_entriesOf repo chunks ▸ nodup_shortNames repo.tree.above chunks

/-! ## §2. One node for each chunk. -/

theorem contains_named {keys : List ChunkKey} {id : String} :
    keys.contains (.named id) = true ↔ ChunkKey.named id ∈ keys := by
  rw [List.contains_iff_exists_mem_beq]
  constructor
  · rintro ⟨key, hkey, heq⟩
    rw [named_beq_iff.1 heq] at hkey
    exact hkey
  · intro hmem
    exact ⟨_, hmem, named_beq_iff.2 rfl⟩

/-- **Chunks become nodes in their order**, since no name comes a second time. -/
theorem nodes_unlinked (repo : RepoMap) (chunks : List (ChunkRecord × String)) :
    (unlinked repo chunks).graph.nodes
      = (entriesOf repo chunks).map fun c => ChunkKey.named c.id := by
  -- by induction on the chunks still to come, whose names differ from all that are nodes by then
  suffices hrow : ∀ (rest : List ((ChunkRecord × String) × Nat)) (g : ChunkMap), g.repo = repo →
      (g.graph.nodes ++ rest.map fun c => ChunkKey.named (entryOf repo c).id).Nodup →
      (rest.foldl (fun g chunk => g.addChunk chunk.2 chunk.1.1 chunk.1.2) g).graph.nodes
        = g.graph.nodes ++ rest.map fun c => ChunkKey.named (entryOf repo c).id by
    have hnodup := (nodup_ids_entriesOf repo chunks).map
      fun a b (hab : ChunkKey.named a = .named b) => ChunkKey.named.inj hab
    rw [entriesOf, List.map_map, List.map_map] at hnodup
    rw [entriesOf, List.map_map]
    exact hrow (chunks.zipIdx 1) { repo } rfl hnodup
  intro rest
  induction rest with
  | nil =>
    intro g _ _
    rw [List.map_nil, List.append_nil]
    rfl
  | cons chunk rest ih =>
    intro g hrepo hnodup
    have hnew : ChunkKey.named (entryOf repo chunk).id ∉ g.graph.nodes := by
      intro hmem
      exact (List.nodup_append.1 hnodup).2.2 _ hmem _ List.mem_cons_self rfl
    have hnodes : (g.addChunk chunk.2 chunk.1.1 chunk.1.2).graph.nodes
        = g.graph.nodes ++ [ChunkKey.named (entryOf repo chunk).id] := by
      rw [addChunk_eq hrepo]
      show Assoc.insertNew _ _ = _
      rw [Assoc.insertNew, if_neg (mt contains_named.1 hnew)]
    have hrest := ih (g.addChunk chunk.2 chunk.1.1 chunk.1.2) hrepo
    rw [hnodes, List.append_assoc] at hrest
    exact hrest hnodup

/-- So they are linked one after the other, and no collision is found. -/
theorem ofChunks_eq (repo : RepoMap) (readings : List Reading)
    (chunks : List (ChunkRecord × String)) :
    ofChunks repo readings chunks
      = (entriesOf repo chunks).foldlM (linkChunk readings) (unlinked repo chunks) := by
  have hlength : (unlinked repo chunks).graph.nodes.length = (entriesOf repo chunks).length := by
    rw [nodes_unlinked, List.length_map]
  have hcount : (entriesOf repo chunks).length = chunks.length := by
    rw [entriesOf, List.length_map, List.length_zipIdx]
  unfold ofChunks
  dsimp only
  rw [if_neg (not_not.2 (hlength.trans hcount)), (holds_unlinked repo chunks).allNodes_eq hlength]
  rfl

/-! ## §3. Edges add no nodes. -/

/-- A map of these chunks: they are its nodes, and it keeps what they are. -/
structure Settled (entries : List ChunkEntry) (g : ChunkMap) : Prop where
  nodes : g.graph.nodes = entries.map fun c => .named c.id
  data : g.data = entries.map fun c => (.named c.id, .kept c.record c.content)
  placed : g.placed = entries.map fun c => (c.record.file, c)

theorem settled_unlinked (repo : RepoMap) (chunks : List (ChunkRecord × String)) :
    Settled (entriesOf repo chunks) (unlinked repo chunks) := by
  have hstart := holds_unlinked repo chunks
  have hnodes := nodes_unlinked repo chunks
  obtain ⟨-, -, hdata⟩ := hstart.names (by rw [hnodes, List.length_map])
  exact ⟨hnodes, hdata, hstart.placed⟩

variable {entries : List ChunkEntry} {g grown : ChunkMap} {c : ChunkEntry}

theorem Settled.mem_nodes (h : Settled entries g) (hc : c ∈ entries) :
    ChunkKey.named c.id ∈ g.graph.nodes := by
  rw [h.nodes]
  exact List.mem_map_of_mem hc

theorem Settled.mem_of_chunkAt? (h : Settled entries g) {file : FilePath} {rows : SourceRange}
    (hfound : g.chunkAt? file rows = some c) : c ∈ entries := by
  rw [chunkAt?, h.placed] at hfound
  obtain ⟨⟨f, found⟩, hfind, rfl⟩ := Option.map_eq_some_iff.1 hfound
  obtain ⟨c, hc, heq⟩ := List.mem_map.1 (List.mem_of_find?_eq_some hfind)
  cases heq
  exact hc

/-- An edge between nodes adds none. -/
theorem nodes_withEdge {net : Network ChunkKey EdgeFields} {u v : String}
    (hu : ChunkKey.named u ∈ net.nodes) (hv : ChunkKey.named v ∈ net.nodes) :
    (withEdge net u v).nodes = net.nodes := by
  show Assoc.insertNew _ (Assoc.insertNew _ net.nodes) = net.nodes
  have hsource : Assoc.insertNew (ChunkKey.named u) net.nodes = net.nodes := by
    rw [Assoc.insertNew, if_pos (contains_named.2 hu)]
  rw [hsource, Assoc.insertNew, if_pos (contains_named.2 hv)]

theorem Settled.withEdge (h : Settled entries g) (hc : c ∈ entries) {target : ChunkEntry}
    (htarget : target ∈ entries) :
    Settled entries { g with graph := withEdge g.graph c.id target.id } :=
  ⟨(nodes_withEdge (h.mem_nodes hc) (h.mem_nodes htarget)).trans h.nodes, h.data, h.placed⟩

/-- **One reference** leaves the nodes as they are. -/
theorem linkReference_settled (h : Settled entries g) (hc : c ∈ entries) {scopes : ScopeMap}
    {range : SourceRange} (hgrown : g.linkReference c scopes range = .ok grown) :
    Settled entries grown := by
  simp only [linkReference, Outcome.bind_ok] at hgrown
  obtain ⟨_, -, places, -, ranges, -, hgrown⟩ := hgrown
  rw [← Outcome.pure_ok.1 hgrown]
  clear hgrown
  induction ranges generalizing g with
  | nil => exact h
  | cons rows ranges ih =>
    rw [List.foldl_cons]
    apply ih
    -- only a chunk that is there gets an edge
    cases hfound : g.chunkAt? c.record.file rows with
    | none => exact h
    | some target => exact h.withEdge hc (h.mem_of_chunkAt? hfound)

/-- **One chunk** leaves the nodes as they are. -/
theorem linkChunk_settled {readings : List Reading} (h : Settled entries g) (hc : c ∈ entries)
    (hgrown : linkChunk readings g c = .ok grown) : Settled entries grown := by
  rw [linkChunk, Outcome.bind_ok] at hgrown
  obtain ⟨scopes, -, hgrown⟩ := hgrown
  rw [Outcome.bind_ok] at hgrown
  obtain ⟨refs, -, hgrown⟩ := hgrown
  refine Outcome.foldlM_rule (fun _ g => Settled entries g) ?_ h hgrown
  intro _ ref next after hnext hafter
  exact linkReference_settled hnext hc hafter

/-- **All chunks** leave the nodes as they are. -/
theorem linkChunks_settled {readings : List Reading} (h : Settled entries g)
    (hgrown : entries.foldlM (linkChunk readings) g = .ok grown) : Settled entries grown := by
  refine Outcome.foldlM_rule (fun done g => (∀ c ∈ done, c ∈ entries) → Settled entries g) ?_
    (fun _ => h) hgrown fun _ hc => hc
  intro done c next after hnext hafter hdone
  rw [List.forall_mem_append] at hdone
  exact linkChunk_settled (hnext hdone.1) (hdone.2 c List.mem_cons_self) hafter

/-! ## §4. How linking fails. -/

open Outcome (Avoids)

theorem scopeMap_avoids (repo : RepoMap) (file : FilePath) :
    Avoids .namesCollide (repo.scopeMap file) := by
  unfold RepoMap.scopeMap
  split
  · exact Avoids.ok _ _
  · exact Avoids.error (by simp)

theorem references_avoids (r : Reading) : Avoids .namesCollide r.references := by
  unfold Reading.references
  apply Avoids.mapM
  intro t
  apply Avoids.bind
  · show Avoids _ (Source.decode _)
    unfold Source.decode
    split
    · exact Avoids.ok _ _
    · exact Avoids.error (by simp)
  · intro text _
    exact Avoids.ok _ _

theorem write_avoids (file : String) (scope : Int) :
    Avoids .namesCollide (RepoPlace.write file scope) := by
  unfold RepoPlace.write
  split
  · exact Avoids.ok _ _
  · exact Avoids.error (by simp)

theorem exportsFor_avoids (repo : RepoMap) (id : String) :
    Avoids .namesCollide (repo.exportsFor id) := by
  apply Avoids.mapM
  intro id
  unfold RepoPlace.decode
  split
  · exact Avoids.error (by simp)
  · split
    · exact Avoids.error (by simp)
    · split
      · exact Avoids.ok _ _
      · exact Avoids.error (by simp)

theorem exportedRange_avoids (g : ChunkMap) (n : RepoPlace) :
    Avoids .namesCollide (g.exportedRange n) := by
  apply Avoids.bind (scopeMap_avoids _ _)
  intro scopes _
  split
  · exact Avoids.ok _ _
  · exact Avoids.error (by simp)

/-- Linking finds no names that collide. -/
theorem linkChunk_avoids (readings : List Reading) (g : ChunkMap) (c : ChunkEntry) :
    Avoids .namesCollide (linkChunk readings g c) := by
  apply Avoids.bind (scopeMap_avoids _ _)
  intro scopes _
  apply Avoids.bind (references_avoids _)
  intro refs _
  apply Avoids.foldlM
  intro g ref
  apply Avoids.bind (write_avoids _ _)
  intro id _
  apply Avoids.bind (exportsFor_avoids _ _)
  intro places _
  apply Avoids.bind (Avoids.mapM (exportedRange_avoids g) places)
  intro ranges _
  exact Avoids.ok _ _

/-! ## §5. The nodes of the whole map. -/

/-- **Chunk names never collide.**  Whatever the paths and the sizes of chunks are, their short names
differ.  So making their map never fails for names that collide, and if it does not fail at all, the
nodes of the map are the chunks, in their order and each of them once. -/
theorem nodes_ofChunks (repo : RepoMap) (readings : List Reading)
    (chunks : List (ChunkRecord × String)) :
    (∀ above, (shortNames above chunks).Nodup)
    ∧ ofChunks repo readings chunks ≠ .error .namesCollide
    ∧ ∀ g, ofChunks repo readings chunks = .ok g →
      g.graph.nodes = (shortNames repo.tree.above chunks).map .named
      ∧ g.allNodes = .ok (entriesOf repo chunks) := by
  refine ⟨fun above => nodup_shortNames above chunks, ?_, fun g hg => ?_⟩
  · rw [ofChunks_eq]
    exact Avoids.foldlM (linkChunk_avoids readings) _ _
  · rw [ofChunks_eq] at hg
    have hsettled := linkChunks_settled (settled_unlinked repo chunks) hg
    refine ⟨?_, allNodes_of_data (nodup_ids_entriesOf repo chunks) hsettled.nodes hsettled.data⟩
    rw [hsettled.nodes, ← ids_entriesOf, List.map_map]
    rfl

/-- A chunk that ends before it starts. -/
def backwardChunk (path : String) : ChunkRecord × String :=
  ({ filePath := path, fileName := path, fileType := "text/x-python", category := "implementation",
     tokens := 1, spanIds := [], startLine := 5, endLine := 4 }, "x = 1\n")

/-- Two chunks, where the name of the first one begins with the name of the second. -/
def backwardChunks : List (ChunkRecord × String) :=
  [backwardChunk "d/x#2.-1", backwardChunk "d/x"]

/-- A repository with their files. -/
def backwardRepo : RepoMap :=
  { tree := default
    scopeMaps := [({ names := ["d", "x#2.-1"] }, default), ({ names := ["d", "x"] }, default)] }

theorem nodes_ofChunks_backward :
    ∃ g, ofChunks backwardRepo [] backwardChunks = .ok g
      ∧ g.graph.nodes = [.named "d/x#2.-1#1.-1", .named "d/x#2.-1"] := by
  have hok : (ofChunks backwardRepo [] backwardChunks).isOk = true := by decide
  cases hg : ofChunks backwardRepo [] backwardChunks with
  | error e =>
    rw [hg] at hok
    exact absurd hok (by simp [Except.isOk, Except.toBool])
  | ok g =>
    have hnames : shortNames backwardRepo.tree.above backwardChunks
        = ["d/x#2.-1#1.-1", "d/x#2.-1"] := by decide
    have hnodes := ((nodes_ofChunks backwardRepo [] backwardChunks).2.2 g hg).1
    rw [hnames] at hnodes
    exact ⟨g, rfl, hnodes⟩

end ChunkMap

end CodeAtlas

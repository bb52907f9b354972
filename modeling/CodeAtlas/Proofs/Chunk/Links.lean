import CodeAtlas.Chunk.Map
import CodeAtlas.Proofs.Repo.Links

/-!
# The edges between chunks

A map of chunks is made chunk by chunk, reference by reference and export by export, and each of
these adds at most one edge.  The chunks never change while it is made, so that a row of steps adds
the edges of all of them.  The chunk with the rows of an export is looked for in the file of the
reference, and not in the file of the export.

Main results:
  * `ChunkMap.Plain.mem_edgeList`: the edges that are listed are those that were added;
  * `ChunkMap.linkReference_grows`, `ChunkMap.linkChunk_grows`: what one reference adds, and what
    one chunk adds;
  * `ChunkMap.holds_unlinked`: the chunks before there are edges;
  * `ChunkMap.ofChunks_exact`: the edges of the map, and which of them lead to what they stand for.
-/

namespace CodeAtlas.ChunkMap

/-! ## §1. Networks of names. -/

/-- Names are the same if they are equal, and nothing else is the same as a name. -/
theorem beq_named_iff {key : ChunkKey} {id : String} :
    (key == .named id) = true ↔ key = .named id := by
  show ChunkKey.same key (.named id) = true ↔ _
  cases key with
  | named other => simp [ChunkKey.same]
  | literal value => simp [ChunkKey.same]
  | shared other => simp [ChunkKey.same]
  | lone number chunk => simp [ChunkKey.same]

theorem named_beq_iff {key : ChunkKey} {id : String} :
    (ChunkKey.named id == key) = true ↔ key = .named id := by
  show ChunkKey.same (.named id) key = true ↔ _
  cases key with
  | named other =>
    simp only [ChunkKey.same, beq_iff_eq, ChunkKey.named.injEq]
    exact eq_comm
  | literal value => simp [ChunkKey.same]
  | shared other => simp [ChunkKey.same]
  | lone number chunk => simp [ChunkKey.same]

theorem beq_pair_iff {ends : ChunkKey × ChunkKey} {u v : String} :
    (ends == (.named u, .named v)) = true ↔ ends = (.named u, .named v) := by
  show (ends.1 == .named u && ends.2 == .named v) = true ↔ _
  rw [Bool.and_eq_true, beq_named_iff, beq_named_iff, Prod.ext_iff]

/-- Between two names there is at most one edge, in one direction, which says what all edges say. -/
structure Plain (net : Network ChunkKey EdgeFields) : Prop where
  directed : net.isDirected = true
  single : net.isParallel = false
  bundles : ∀ b ∈ net.bundles, ∃ u v, b = ((.named u, .named v), [(.number 0, edgeFields)])

/-- Is there an edge from one name to another? -/
def Joins (net : Network ChunkKey EdgeFields) (u v : String) : Prop :=
  (ChunkKey.named u, ChunkKey.named v) ∈ net.bundles.map (·.1)

/-- A network with one more edge. -/
def withEdge (net : Network ChunkKey EdgeFields) (u v : String) : Network ChunkKey EdgeFields :=
  net.addEdge (.named u) (.named v) none fun _ => edgeFields

variable {net : Network ChunkKey EdgeFields}

/-- What is kept for two names is the one edge between them. -/
theorem Plain.bundles_withEdge (h : Plain net) (u v : String) :
    (withEdge net u v).bundles =
      Assoc.put (.named u, .named v) [(.number 0, edgeFields)] net.bundles := by
  -- there is nothing between the two names, or the edge that is put there again
  have hedges : Assoc.put (.number 0) edgeFields
      ((Assoc.get? (ChunkKey.named u, ChunkKey.named v) net.bundles).getD [])
        = [(.number 0, edgeFields)] := by
    cases hget : Assoc.get? (ChunkKey.named u, ChunkKey.named v) net.bundles with
    | none => rfl
    | some edges =>
      obtain ⟨k, -, hmem⟩ := Assoc.mem_of_get? hget
      obtain ⟨u', v', hb⟩ := h.bundles _ hmem
      rw [(Prod.mk.inj hb).2]
      rfl
  unfold withEdge Network.addEdge Network.keyFor Network.between Network.ends Network.addNode
  simp only [h.directed, h.single, Bool.not_true, Bool.false_and, Bool.false_eq_true, if_false]
  rw [hedges]

/-- A network stays plain with one more edge. -/
theorem Plain.withEdge (h : Plain net) (u v : String) : Plain (withEdge net u v) := by
  refine ⟨h.directed, h.single, ?_⟩
  intro b hb
  rw [h.bundles_withEdge] at hb
  obtain hb | rfl := Assoc.mem_put (fun _ _ => beq_pair_iff.1) hb
  · exact h.bundles b hb
  · exact ⟨u, v, rfl⟩

theorem Plain.joins_withEdge (h : Plain net) {u v x y : String} :
    Joins (ChunkMap.withEdge net u v) x y ↔ Joins net x y ∨ (x = u ∧ y = v) := by
  unfold Joins
  rw [h.bundles_withEdge, Assoc.mem_keys_put fun _ _ => beq_pair_iff.1, or_comm, Prod.mk.injEq,
    ChunkKey.named.injEq, ChunkKey.named.injEq]

theorem mem_nodes_withEdge {u v : String} {key : ChunkKey} (h : key ∈ net.nodes) :
    key ∈ (withEdge net u v).nodes := by
  have hinsert : ∀ (new : ChunkKey) (keys : List ChunkKey), key ∈ keys →
      key ∈ Assoc.insertNew new keys := by
    intro new keys hkey
    unfold Assoc.insertNew
    split
    · exact hkey
    · exact List.mem_append_left _ hkey
  exact hinsert _ _ (hinsert _ _ h)

/-- The edges that are listed from a node, whichever nodes were seen before. -/
theorem Plain.mem_edgesFrom (h : Plain net) {seen : List ChunkKey} {key : ChunkKey}
    {e : (ChunkKey × ChunkKey) × EdgeFields} :
    e ∈ net.edgesFrom seen key ↔ ∃ u v, key = .named u ∧ Joins net u v ∧
      e = ((.named u, .named v), edgeFields) := by
  unfold Network.edgesFrom Network.otherEnd?
  simp only [List.mem_flatMap, h.directed, Bool.not_true, Bool.false_and, Bool.false_eq_true,
    if_false, Bool.true_or, if_true]
  constructor
  · rintro ⟨b, hb, he⟩
    obtain ⟨u, v, rfl⟩ := h.bundles b hb
    by_cases hkey : (ChunkKey.named u == key) = true
    · rw [if_pos hkey] at he
      obtain rfl := named_beq_iff.1 hkey
      exact ⟨u, v, rfl, List.mem_map_of_mem hb, List.mem_singleton.1 he⟩
    · rw [if_neg hkey] at he
      cases he
  · rintro ⟨u, v, rfl, hjoins, rfl⟩
    obtain ⟨b, hb, heq⟩ := List.mem_map.1 hjoins
    obtain ⟨u', v', rfl⟩ := h.bundles b hb
    cases heq
    refine ⟨_, hb, ?_⟩
    rw [if_pos (beq_named_iff.2 rfl)]
    exact List.mem_singleton.2 rfl

/-- **Listed edges.**  They are the edges from the nodes. -/
theorem Plain.mem_edgeList (h : Plain net) {e : (ChunkKey × ChunkKey) × EdgeFields} :
    e ∈ net.edgeList ↔ ∃ u v, .named u ∈ net.nodes ∧ Joins net u v ∧
      e = ((.named u, .named v), edgeFields) := by
  have hall : ∀ (keys seen : List ChunkKey), e ∈ net.edgesFromAll seen keys ↔
      ∃ u v, .named u ∈ keys ∧ Joins net u v ∧ e = ((.named u, .named v), edgeFields) := by
    intro keys
    induction keys with
    | nil => simp [Network.edgesFromAll]
    | cons key rest ih =>
      intro seen
      rw [Network.edgesFromAll, List.mem_append, h.mem_edgesFrom, ih]
      constructor
      · rintro (⟨u, v, rfl, hjoins, he⟩ | ⟨u, v, hu, hjoins, he⟩)
        · exact ⟨u, v, List.mem_cons_self, hjoins, he⟩
        · exact ⟨u, v, List.mem_cons_of_mem _ hu, hjoins, he⟩
      · rintro ⟨u, v, hu, hjoins, he⟩
        obtain hu | hu := List.mem_cons.1 hu
        · exact Or.inl ⟨u, v, hu.symm, hjoins, he⟩
        · exact Or.inr ⟨u, v, hu, hjoins, he⟩
  exact hall net.nodes []

/-! ## §2. Steps. -/

/-- A map that has grown by exactly the given edges, over the same chunks. -/
structure Grows (new : String → String → Prop) (g grown : ChunkMap) : Prop where
  repo : grown.repo = g.repo
  placed : grown.placed = g.placed
  plain : Plain g.graph → Plain grown.graph
  joins : Plain g.graph → ∀ u v, Joins grown.graph u v ↔ Joins g.graph u v ∨ new u v
  nodes : ∀ key ∈ g.graph.nodes, key ∈ grown.graph.nodes

/-- The chunks with given rows are the same. -/
theorem Grows.chunkAt?_eq {new : String → String → Prop} {g grown : ChunkMap}
    (h : Grows new g grown) : grown.chunkAt? = g.chunkAt? := by
  unfold chunkAt?
  rw [h.placed]

theorem Grows.none (g : ChunkMap) : Grows (fun _ _ => False) g g where
  repo := rfl
  placed := rfl
  plain := id
  joins := by simp
  nodes := fun _ h => h

theorem Grows.both (new more : String → String → Prop) (g next grown : ChunkMap)
    (h : Grows new g next) (h' : Grows more next grown) :
    Grows (fun u v => new u v ∨ more u v) g grown where
  repo := h'.repo.trans h.repo
  placed := h'.placed.trans h.placed
  plain := fun hg => h'.plain (h.plain hg)
  joins := by
    intro hg u v
    rw [h'.joins (h.plain hg), h.joins hg, or_assoc]
  nodes := fun key hkey => h'.nodes key (h.nodes key hkey)

/-- **One export.**  The edge goes to the first chunk of the given file with the rows. -/
theorem follow_grows (g : ChunkMap) (c : ChunkEntry) (file : FilePath) (rows : SourceRange) :
    Grows (fun u v => ∃ target, g.chunkAt? file rows = some target ∧ u = c.id ∧ v = target.id) g
      (match g.chunkAt? file rows with
        | some target => { g with graph := withEdge g.graph c.id target.id }
        | none => g) := by
  cases hfound : g.chunkAt? file rows with
  | none => exact Outcome.adds_congr (Grows.none g) (by simp)
  | some target =>
    refine ⟨rfl, rfl, fun hg => hg.withEdge _ _, ?_, fun _ => mem_nodes_withEdge⟩
    intro hg u v
    show Joins (withEdge g.graph c.id target.id) u v ↔ _
    rw [hg.joins_withEdge]
    simp

/-- **One reference.**  Its edges go to the chunks with the rows of the exports. -/
theorem linkReference_grows {g grown : ChunkMap} {c : ChunkEntry} {scopes : ScopeMap}
    {range : SourceRange} (h : g.linkReference c scopes range = .ok grown) :
    ∃ places, g.repo.exportsFor (RepoPlace.encode c.record.file.text (scopes.scopeAt range)) =
        .ok places ∧
      Grows (fun u v => ∃ place ∈ places, ∃ rows, g.exportedRange place = .ok rows ∧
        ∃ target, g.chunkAt? c.record.file rows = some target ∧ u = c.id ∧ v = target.id) g grown := by
  simp only [linkReference, Outcome.bind_ok, RepoPlace.write_ok] at h
  obtain ⟨_, ⟨rfl, -⟩, places, hplaces, ranges, hranges, h⟩ := h
  refine ⟨places, hplaces, ?_⟩
  -- the edges are added one after the other, and no step fails
  have hrow : ranges.foldlM (fun (g : ChunkMap) r => (pure (match g.chunkAt? c.record.file r with
      | some target => { g with graph := withEdge g.graph c.id target.id }
      | none => g) : Outcome ChunkMap)) g = .ok grown := by
    rw [List.foldlM_pure]
    exact h
  have hgrows := Outcome.foldlM_adds Grows.none Grows.both
    (fun rows u v => ∃ target, g.chunkAt? c.record.file rows = some target ∧ u = c.id ∧
      v = target.id) (fun rows next after sofar hsofar hnext => ?_) hrow
  · refine Outcome.adds_congr hgrows fun u v => ?_
    simp only [Outcome.mem_of_mapM hranges]
    constructor
    · rintro ⟨rows, ⟨place, hplace, hrows⟩, hedge⟩
      exact ⟨place, hplace, rows, hrows, hedge⟩
    · rintro ⟨place, hplace, rows, hrows, hedge⟩
      exact ⟨rows, ⟨place, hplace, hrows⟩, hedge⟩
  · rw [← Outcome.pure_ok.1 hnext]
    rw [← hsofar.chunkAt?_eq]
    exact follow_grows next c c.record.file rows

/-! ## §3. What the edges are made for. -/

variable {w : FileImport.Setting} {readings : List Reading}

/-- The content of the chunk has a reference which, by its rows in the content, is looked up in
scope `s` of the file. -/
def RefersIn (w : FileImport.Setting) (readings : List Reading) (c : ChunkEntry) (s : Nat) : Prop :=
  ∃ scopes refs name range, RepoMap.HasScopes w readings c.record.file scopes ∧
    (Reading.find readings ⟨(Text.bytes c.content).toArray⟩).references = .ok refs ∧
    (name, range) ∈ refs ∧ scopes.scopeAt range = s

/-- These are the rows of scope `d` of file `t`. -/
def HasRows (w : FileImport.Setting) (readings : List Reading) (t : FilePath) (d : Nat)
    (rows : SourceRange) : Prop :=
  ∃ scopes, RepoMap.HasScopes w readings t scopes ∧ scopes.rangeOf? d = some rows

/-- The chunk has a reference in a scope from which an edge of the repository leads to scope `d` of
file `t`, and these are its rows. -/
def Uses (w : FileImport.Setting) (readings : List Reading) (repo : RepoMap) (c : ChunkEntry)
    (t : FilePath) (d : Nat) (rows : SourceRange) : Prop :=
  ∃ s, RefersIn w readings c s ∧ repo.HasEdge c.record.file s t d ∧ HasRows w readings t d rows

/-- The rows of an exported scope are looked up in the scope map of its file. -/
theorem exportedRange_iff (htree : w.tree.Proper) {g : ChunkMap}
    (hrepo : RepoMap.build w readings = .ok g.repo) {t : FilePath} (ht : t.Proper) {d : Nat}
    {rows : SourceRange} :
    g.exportedRange ⟨t.text, d⟩ = .ok rows ↔ HasRows w readings t d rows := by
  rw [exportedRange, Outcome.bind_ok]
  show (∃ scopes, g.repo.scopeMap (FilePath.ofText t.text) = .ok scopes ∧ _) ↔ _
  rw [FilePath.ofText_text ht]
  unfold HasRows
  refine exists_congr fun scopes => and_congr (RepoMap.scopeMap_of_build htree hrepo) ?_
  dsimp only
  rw [Int.toNat_natCast]
  cases scopes.rangeOf? d with
  | none => simp
  | some found => simp [Outcome.pure_ok]

/-- **One chunk.**  Its edges go to the chunks of its own file with the rows of what it uses. -/
theorem linkChunk_grows (htree : w.tree.Proper) {g grown : ChunkMap}
    (hrepo : RepoMap.build w readings = .ok g.repo) {c : ChunkEntry}
    (h : linkChunk readings g c = .ok grown) :
    Grows (fun u v => ∃ t d rows target, Uses w readings g.repo c t d rows ∧
      g.chunkAt? c.record.file rows = some target ∧ u = c.id ∧ v = target.id) g grown := by
  rw [linkChunk, Outcome.bind_ok] at h
  obtain ⟨scopes, hscopes, h⟩ := h
  rw [Outcome.bind_ok] at h
  obtain ⟨refs, hrefs, h⟩ := h
  rw [RepoMap.scopeMap_of_build htree hrepo] at hscopes
  have hgrows := Outcome.foldlM_adds Grows.none Grows.both
    (fun (ref : String × SourceRange) u v => ∃ t d rows target,
      g.repo.HasEdge c.record.file (scopes.scopeAt ref.2) t d ∧ HasRows w readings t d rows ∧
      g.chunkAt? c.record.file rows = some target ∧ u = c.id ∧ v = target.id)
    (fun ref next after sofar hsofar hnext => ?_) h
  · refine Outcome.adds_congr hgrows fun u v => ?_
    constructor
    · rintro ⟨⟨name, range⟩, href, t, d, rows, target, hedge, hrows, hlink⟩
      exact ⟨t, d, rows, target, ⟨scopes.scopeAt range, ⟨scopes, refs, name, range, hscopes, hrefs,
        href, rfl⟩, hedge, hrows⟩, hlink⟩
    · rintro ⟨t, d, rows, target, ⟨s, ⟨scopes', refs', name, range, hscopes', hrefs', href, rfl⟩,
        hedge, hrows⟩, hlink⟩
      cases Except.ok.inj (hrefs.symm.trans hrefs')
      -- the file has one scope map
      rw [← RepoMap.scopeMap_of_build htree hrepo] at hscopes hscopes'
      cases Except.ok.inj (hscopes.symm.trans hscopes')
      exact ⟨(name, range), href, t, d, rows, target, hedge, hrows, hlink⟩
  · obtain ⟨places, hplaces, hgrows⟩ := linkReference_grows hnext
    rw [hsofar.repo] at hplaces
    have hrepo' : RepoMap.build w readings = .ok next.repo := by rw [hsofar.repo, hrepo]
    rw [hsofar.chunkAt?_eq] at hgrows
    refine Outcome.adds_congr hgrows fun u v => ?_
    simp only [RepoMap.mem_exportsFor htree hrepo hplaces]
    constructor
    · rintro ⟨place, ⟨t, d, ht, hedge, rfl⟩, rows, hrows, target, hlink⟩
      exact ⟨t, d, rows, target, hedge, (exportedRange_iff htree hrepo' ht).1 hrows, hlink⟩
    · rintro ⟨t, d, rows, target, hedge, hrows, hlink⟩
      obtain ⟨other, hother, -⟩ := id hrows
      have ht := hother.proper htree
      exact ⟨⟨t.text, d⟩, ⟨t, d, ht, hedge, rfl⟩, rows, (exportedRange_iff htree hrepo' ht).2 hrows,
        target, hlink⟩

/-! ## §4. The chunks. -/

/-- A chunk with its short name. -/
def entryOf (repo : RepoMap) (chunk : (ChunkRecord × String) × Nat) : ChunkEntry :=
  ⟨chunk.1.1.shortName repo.tree.above chunk.2, chunk.1.1, chunk.1.2⟩

/-- The chunks with their short names, numbered from 1. -/
def entriesOf (repo : RepoMap) (chunks : List (ChunkRecord × String)) : List ChunkEntry :=
  (chunks.zipIdx 1).map (entryOf repo)

/-- A map of these chunks without edges.  There is a node for each of them if their names differ. -/
structure Holds (repo : RepoMap) (entries : List ChunkEntry) (g : ChunkMap) : Prop where
  repo : g.repo = repo
  placed : g.placed = entries.map fun c => (c.record.file, c)
  plain : Plain g.graph
  edgeless : g.graph.bundles = []
  few : g.graph.nodes.length ≤ entries.length
  names : g.graph.nodes.length = entries.length → (entries.map (·.id)).Nodup ∧
    g.graph.nodes = entries.map (fun c => .named c.id) ∧
    g.data = entries.map fun c => (.named c.id, .kept c.record c.content)

theorem addChunk_eq {repo : RepoMap} {g : ChunkMap} (hrepo : g.repo = repo)
    (chunk : (ChunkRecord × String) × Nat) :
    g.addChunk chunk.2 chunk.1.1 chunk.1.2 =
      { g with
        data := Assoc.put (.named (entryOf repo chunk).id) (.kept chunk.1.1 chunk.1.2) g.data
        graph := g.graph.addNode (.named (entryOf repo chunk).id)
        placed := g.placed ++ [(chunk.1.1.file, entryOf repo chunk)] } := by
  subst hrepo
  rfl

/-- **One chunk more.**  It is a node of its own if its name is new. -/
theorem Holds.addChunk {repo : RepoMap} {entries : List ChunkEntry} {g : ChunkMap}
    (h : Holds repo entries g) (chunk : (ChunkRecord × String) × Nat) :
    Holds repo (entries ++ [entryOf repo chunk]) (g.addChunk chunk.2 chunk.1.1 chunk.1.2) := by
  rw [addChunk_eq h.repo]
  have hplain : Plain (g.graph.addNode (.named (entryOf repo chunk).id)) :=
    ⟨h.plain.directed, h.plain.single, h.plain.bundles⟩
  have hplaced : g.placed ++ [(chunk.1.1.file, entryOf repo chunk)] =
      (entries ++ [entryOf repo chunk]).map fun c => (c.record.file, c) := by
    rw [h.placed, List.map_append]
    rfl
  have hfew := h.few
  refine ⟨h.repo, hplaced, hplain, h.edgeless, ?_, ?_⟩
  -- a node is added if the name is new
  all_goals simp only [Network.addNode, Assoc.insertNew, List.length_append, List.length_singleton]
  · split
    · omega
    · rw [List.length_append, List.length_singleton]
      omega
  · intro hlength
    by_cases hthere : g.graph.nodes.contains (.named (entryOf repo chunk).id) = true
    · -- a name that is there already leaves too few nodes
      rw [if_pos hthere] at hlength
      omega
    · rw [if_neg hthere, List.length_append, List.length_singleton] at hlength
      obtain ⟨honce, hkeys, hdata⟩ := h.names (by omega)
      have hnew : ∀ c ∈ entries, c.id ≠ (entryOf repo chunk).id := by
        intro c hc heq
        apply hthere
        rw [hkeys, List.contains_iff_exists_mem_beq]
        exact ⟨.named c.id, List.mem_map_of_mem hc, named_beq_iff.2 (by rw [heq])⟩
      have habsent : Assoc.has (.named (entryOf repo chunk).id) g.data = false := by
        rw [hdata, Assoc.has, List.any_eq_false]
        intro e he heq
        obtain ⟨c, hc, rfl⟩ := List.mem_map.1 he
        exact hnew c hc (ChunkKey.named.inj (beq_named_iff.1 heq))
      refine ⟨?_, ?_, ?_⟩
      · rw [List.map_append, List.nodup_append]
        refine ⟨honce, List.nodup_singleton _, ?_⟩
        intro a ha b hb heq
        obtain ⟨c, hc, rfl⟩ := List.mem_map.1 ha
        exact hnew c hc (heq.trans (List.mem_singleton.1 hb))
      · rw [if_neg hthere, hkeys, List.map_append]
        rfl
      · rw [Assoc.put_of_absent habsent, hdata, List.map_append]
        rfl

/-- **All chunks.**  Numbered one after the other, they are what the map begins with. -/
theorem holds_unlinked (repo : RepoMap) (chunks : List (ChunkRecord × String)) :
    Holds repo (entriesOf repo chunks) (unlinked repo chunks) := by
  suffices hrow : ∀ (rest : List ((ChunkRecord × String) × Nat)) (entries : List ChunkEntry)
      (g : ChunkMap), Holds repo entries g → Holds repo (entries ++ rest.map (entryOf repo))
        (rest.foldl (fun g chunk => g.addChunk chunk.2 chunk.1.1 chunk.1.2) g) by
    refine hrow (chunks.zipIdx 1) [] { repo } ?_
    refine ⟨rfl, rfl, ⟨rfl, rfl, ?_⟩, rfl, Nat.le_refl 0, fun _ => ⟨List.nodup_nil, rfl, rfl⟩⟩
    intro b hb
    cases hb
  intro rest
  induction rest with
  | nil =>
    intro entries g h
    rw [List.map_nil, List.append_nil]
    exact h
  | cons chunk rest ih =>
    intro entries g h
    have hnext := ih _ _ (h.addChunk chunk)
    rw [List.append_assoc] at hnext
    exact hnext

/-- The chunks that are kept under their names are read back, if these differ. -/
theorem allNodes_of_data {entries : List ChunkEntry} {g : ChunkMap}
    (honce : (entries.map (·.id)).Nodup)
    (hkeys : g.graph.nodes = entries.map fun c => .named c.id)
    (hdata : g.data = entries.map fun c => (.named c.id, .kept c.record c.content)) :
    g.allNodes = .ok entries := by
  rw [allNodes, hkeys, List.mapM_map]
  refine Outcome.mapM_eq_self fun c hc => ?_
  have hget : Assoc.get? (.named c.id) g.data = some (.kept c.record c.content) := by
    refine Assoc.get?_of_mem (beq_named_iff.2 rfl) (fun _ _ => beq_named_iff.1) ?_ ?_
    · rw [hdata, List.map_map]
      have hmap := honce.map (fun a b (hab : ChunkKey.named a = .named b) =>
        ChunkKey.named.inj hab)
      rwa [List.map_map] at hmap
    · rw [hdata]
      exact List.mem_map_of_mem hc
  show g.nodeOf (.named c.id) = .ok c
  unfold nodeOf
  rw [hget]
  rfl

theorem Holds.allNodes_eq {repo : RepoMap} {entries : List ChunkEntry} {g : ChunkMap}
    (h : Holds repo entries g) (hlength : g.graph.nodes.length = entries.length) :
    g.allNodes = .ok entries := by
  obtain ⟨honce, hkeys, hdata⟩ := h.names hlength
  exact allNodes_of_data honce hkeys hdata

theorem Holds.chunkAt?_eq {repo : RepoMap} {entries : List ChunkEntry} {g : ChunkMap}
    (h : Holds repo entries g) (file : FilePath) (rows : SourceRange) :
    g.chunkAt? file rows =
      entries.find? fun c => c.record.file = file && c.range.containsRows rows := by
  rw [chunkAt?, h.placed, List.find?_map, Option.map_map]
  exact congrFun Option.map_id _

/-! ## §5. The whole map. -/

/-- The map has the edge from one chunk to another. -/
def HasEdge (g : ChunkMap) (a b : ChunkEntry) : Prop :=
  ((.named a.id, .named b.id), edgeFields) ∈ g.graph.edgeList

/-- The second chunk is one of the file of an export that the first one uses, and has its rows. -/
def LeadsToExport (w : FileImport.Setting) (readings : List Reading) (repo : RepoMap)
    (a b : ChunkEntry) : Prop :=
  ∃ t d rows, Uses w readings repo a t d rows ∧ b.record.file = t ∧
    b.range.containsRows rows = true

variable {repo : RepoMap} {chunks : List (ChunkRecord × String)} {g : ChunkMap}

/-- The edges of the map go to the first chunk, in the file of the chunk they come from, that has the
rows of an export. -/
theorem ofChunks_edges (htree : w.tree.Proper) (hrepo : RepoMap.build w readings = .ok repo)
    (h : ofChunks repo readings chunks = .ok g) :
    ((entriesOf repo chunks).map (·.id)).Nodup ∧
    ∀ e, e ∈ g.graph.edgeList ↔ ∃ a ∈ entriesOf repo chunks, ∃ b t d rows,
      Uses w readings repo a t d rows ∧
      ((entriesOf repo chunks).find? fun c =>
        c.record.file = a.record.file && c.range.containsRows rows) = some b ∧
      e = ((.named a.id, .named b.id), edgeFields) := by
  have hstart := holds_unlinked repo chunks
  unfold ofChunks at h
  dsimp only at h
  split at h
  · cases h
  · rename_i hcount
    have hlength : (unlinked repo chunks).graph.nodes.length = (entriesOf repo chunks).length := by
      rw [not_not.1 hcount, entriesOf, List.length_map, List.length_zipIdx]
    obtain ⟨honce, hkeys, -⟩ := hstart.names hlength
    rw [hstart.allNodes_eq hlength] at h
    change (entriesOf repo chunks).foldlM (linkChunk readings) (unlinked repo chunks) = .ok g at h
    have hgrows := Outcome.foldlM_adds Grows.none Grows.both
      (fun (a : ChunkEntry) u v => ∃ t d rows b, Uses w readings repo a t d rows ∧
        (unlinked repo chunks).chunkAt? a.record.file rows = some b ∧ u = a.id ∧ v = b.id)
      (fun a next after sofar hsofar hnext => ?_) h
    · refine ⟨honce, fun e => ?_⟩
      have hnone : ∀ u v, ¬ Joins (unlinked repo chunks).graph u v := by
        intro u v
        rw [Joins, hstart.edgeless]
        exact List.not_mem_nil
      rw [(hgrows.plain hstart.plain).mem_edgeList]
      simp only [hgrows.joins hstart.plain, hnone, false_or, hstart.chunkAt?_eq]
      constructor
      · rintro ⟨u, v, -, ⟨a, ha, t, d, rows, b, huses, hfind, rfl, rfl⟩, rfl⟩
        exact ⟨a, ha, b, t, d, rows, huses, hfind, rfl⟩
      · rintro ⟨a, ha, b, t, d, rows, huses, hfind, rfl⟩
        refine ⟨a.id, b.id, hgrows.nodes _ ?_, ⟨a, ha, t, d, rows, b, huses, hfind, rfl, rfl⟩, rfl⟩
        rw [hkeys]
        exact List.mem_map_of_mem ha
    · have hsame : next.repo = repo := hsofar.repo.trans hstart.repo
      have hlink := linkChunk_grows htree (hsame ▸ hrepo) hnext
      rwa [hsame, hsofar.chunkAt?_eq] at hlink

/-- **Edges stay in their file.**  The edges of a map of chunks are known: from a chunk with a
reference, along the edges of the repository to the exported scopes, and from the rows of these to
the first chunk with such rows, which is looked for in the file of the reference, and not in the
file of the export.  So an edge leads to the chunk that holds an export exactly if the file of the
reference exports to itself a scope whose rows the chunk has. -/
theorem ofChunks_exact (htree : w.tree.Proper) (hrepo : RepoMap.build w readings = .ok repo)
    (h : ofChunks repo readings chunks = .ok g) :
    (∀ e, e ∈ g.graph.edgeList ↔ ∃ a ∈ entriesOf repo chunks, ∃ b t d rows,
      Uses w readings repo a t d rows ∧
      ((entriesOf repo chunks).find? fun c =>
        c.record.file = a.record.file && c.range.containsRows rows) = some b ∧
      e = ((.named a.id, .named b.id), edgeFields)) ∧
    ∀ a ∈ entriesOf repo chunks, ∀ b ∈ entriesOf repo chunks, g.HasEdge a b →
      b.record.file = a.record.file ∧
      (LeadsToExport w readings repo a b ↔
        ∃ d rows, Uses w readings repo a a.record.file d rows ∧
          b.range.containsRows rows = true) := by
  obtain ⟨honce, hedges⟩ := ofChunks_edges htree hrepo h
  refine ⟨hedges, fun a ha b hb hedge => ?_⟩
  obtain ⟨a', ha', b', t, d, rows, -, hfind, heq⟩ := (hedges _).1 hedge
  -- the names of chunks differ
  have hends := Prod.mk.inj (Prod.mk.inj heq).1
  have hfirst : a = a' := List.inj_on_of_nodup_map honce ha ha' (ChunkKey.named.inj hends.1)
  have hsecond : b = b' := List.inj_on_of_nodup_map honce hb (List.mem_of_find?_eq_some hfind)
    (ChunkKey.named.inj hends.2)
  subst hfirst hsecond
  have hfound := List.find?_some hfind
  rw [Bool.and_eq_true, decide_eq_true_eq] at hfound
  refine ⟨hfound.1, ?_⟩
  constructor
  · rintro ⟨t, d, rows, huses, rfl, hrows⟩
    exact ⟨d, rows, hfound.1 ▸ huses, hrows⟩
  · rintro ⟨d, rows, huses, hrows⟩
    exact ⟨a.record.file, d, rows, huses, hfound.1, hrows⟩

/-! ## §6. Two files as two chunks. -/

/-- A chunk that is a whole file of two lines. -/
def wholeFile (name content : String) : ChunkRecord × String :=
  ({ filePath := name, fileName := name, fileType := "text/x-python", category := "implementation",
     tokens := 4, spanIds := [], startLine := 0, endLine := 2 }, content)

def wholeFiles : List (ChunkRecord × String) :=
  [wholeFile "a.py" "from b import foo\nfoo()\n", wholeFile "b.py" "def foo():\n  pass\n"]

def callingChunk : ChunkEntry :=
  ⟨"repo/a.py#1.2", (wholeFile "a.py" "").1, "from b import foo\nfoo()\n"⟩

def definingChunk : ChunkEntry :=
  ⟨"repo/b.py#2.2", (wholeFile "b.py" "").1, "def foo():\n  pass\n"⟩

open RepoMap (twoFiles twoFilesMap caller callee callerScopes calleeScopes proper_twoFiles
  build_twoFiles)

theorem entriesOf_wholeFiles : entriesOf twoFilesMap wholeFiles = [callingChunk, definingChunk] := by
  have ha : (wholeFile "a.py" "").1.shortName ["repo"] 1 = "repo/a.py#1.2" := by decide
  have hb : (wholeFile "b.py" "").1.shortName ["repo"] 2 = "repo/b.py#2.2" := by decide
  show [(⟨(wholeFile "a.py" "").1.shortName ["repo"] 1, (wholeFile "a.py" "").1, _⟩ : ChunkEntry),
    ⟨(wholeFile "b.py" "").1.shortName ["repo"] 2, (wholeFile "b.py" "").1, _⟩] = _
  rw [ha, hb]
  rfl

theorem references_callingChunk :
    (Reading.find [caller, callee] ⟨(Text.bytes callingChunk.content).toArray⟩).references =
      .ok [("foo", ⟨18, 21, 1, 0, 1, 3⟩)] := by decide +kernel

theorem file_callingChunk : callingChunk.record.file = { names := ["a.py"] } := by decide

theorem scopeAt_call : callerScopes.scopeAt ⟨18, 21, 1, 0, 1, 3⟩ = 0 := by decide

theorem find?_callingChunk :
    ([callingChunk, definingChunk].find? fun c => c.record.file = callingChunk.record.file &&
      c.range.containsRows ⟨0, 17, 0, 0, 1, 6⟩) = some callingChunk :=
  List.find?_cons_of_pos (by decide)

theorem exists_ofChunks_wholeFiles :
    ∃ g, ofChunks twoFilesMap [caller, callee] wholeFiles = .ok g := by
  have hstart := holds_unlinked twoFilesMap wholeFiles
  rw [entriesOf_wholeFiles] at hstart
  generalize hstarted : unlinked twoFilesMap wholeFiles = start at hstart
  have hlength : start.graph.nodes.length = 2 := by
    rw [← hstarted]
    decide
  -- the one reference adds an edge from the first chunk to itself
  obtain ⟨linked, hlinked⟩ : ∃ linked : ChunkMap, linked =
    { start with graph := withEdge start.graph callingChunk.id callingChunk.id } := ⟨_, rfl⟩
  have hlink : start.linkReference callingChunk callerScopes ⟨18, 21, 1, 0, 1, 3⟩ = .ok linked := by
    refine Outcome.bind_ok.2 ⟨"a.py::0", ?_, Outcome.bind_ok.2 ⟨[⟨"b.py", 1⟩], ?_,
      Outcome.bind_ok.2 ⟨[⟨0, 17, 0, 0, 1, 6⟩], ?_, ?_⟩⟩⟩
    · rw [file_callingChunk, scopeAt_call]
      decide
    · rw [hstart.repo]
      decide
    · rw [← hstarted]
      decide
    · show Except.ok (match start.chunkAt? callingChunk.record.file ⟨0, 17, 0, 0, 1, 6⟩ with
        | some target => { start with graph := withEdge start.graph callingChunk.id target.id }
        | none => start) = _
      rw [hstart.chunkAt?_eq, find?_callingChunk, hlinked]
  have hfirst : linkChunk [caller, callee] start callingChunk = .ok linked := by
    refine Outcome.bind_ok.2 ⟨callerScopes, ?_, Outcome.bind_ok.2 ⟨_, references_callingChunk, ?_⟩⟩
    · rw [hstart.repo]
      decide
    · rw [List.foldlM_cons]
      exact Outcome.bind_ok.2 ⟨linked, hlink, rfl⟩
  have hsecond : linkChunk [caller, callee] linked definingChunk = .ok linked := by
    refine Outcome.bind_ok.2 ⟨calleeScopes, ?_, Outcome.bind_ok.2 ⟨[], by decide, rfl⟩⟩
    rw [hlinked]
    show start.repo.scopeMap _ = _
    rw [hstart.repo]
    decide
  refine ⟨linked, ?_⟩
  unfold ofChunks
  dsimp only
  rw [hstarted, if_neg (by rw [hlength]; decide), hstart.allNodes_eq hlength]
  refine Outcome.bind_ok.2 ⟨_, rfl, ?_⟩
  rw [List.foldlM_cons]
  refine Outcome.bind_ok.2 ⟨linked, hfirst, ?_⟩
  rw [List.foldlM_cons]
  exact Outcome.bind_ok.2 ⟨linked, hsecond, rfl⟩

theorem uses_callingChunk : Uses twoFiles [caller, callee] twoFilesMap callingChunk
    { names := ["b.py"] } 1 ⟨0, 17, 0, 0, 1, 6⟩ := by
  have hscopes : ∀ {file scopes}, twoFilesMap.scopeMap file = .ok scopes →
      RepoMap.HasScopes twoFiles [caller, callee] file scopes :=
    (RepoMap.scopeMap_of_build proper_twoFiles build_twoFiles).1
  refine ⟨0, ⟨callerScopes, _, "foo", ⟨18, 21, 1, 0, 1, 3⟩, hscopes (by decide),
    references_callingChunk, List.mem_singleton.2 rfl, scopeAt_call⟩, ?_, calleeScopes,
    hscopes (by decide), by decide⟩
  show (_, _) ∈ twoFilesMap.graph.edgeList
  decide

/-- The call in the first chunk uses what the second one holds, but the edge leads from the first
chunk to itself. -/
theorem ofChunks_exact_wholeFiles :
    ∃ g, ofChunks twoFilesMap [caller, callee] wholeFiles = .ok g ∧
      g.HasEdge callingChunk callingChunk ∧ ¬ g.HasEdge callingChunk definingChunk ∧
      LeadsToExport twoFiles [caller, callee] twoFilesMap callingChunk definingChunk ∧
      ¬ LeadsToExport twoFiles [caller, callee] twoFilesMap callingChunk callingChunk := by
  obtain ⟨g, hg⟩ := exists_ofChunks_wholeFiles
  obtain ⟨hedges, hfiles⟩ := ofChunks_exact proper_twoFiles build_twoFiles hg
  rw [entriesOf_wholeFiles] at hedges hfiles
  have hedge : g.HasEdge callingChunk callingChunk :=
    (hedges _).2 ⟨callingChunk, List.mem_cons_self, callingChunk, _, _, _, uses_callingChunk,
      find?_callingChunk, rfl⟩
  refine ⟨g, hg, hedge, ?_, ⟨_, _, _, uses_callingChunk, by decide +kernel, by decide +kernel⟩, ?_⟩
  · intro hother
    have hsame := (hfiles _ List.mem_cons_self _ (by simp) hother).1
    exact absurd hsame (by decide +kernel)
  · rw [(hfiles _ List.mem_cons_self _ List.mem_cons_self hedge).2]
    -- the only edge of the repository leads to the other file
    rintro ⟨d, rows, ⟨s, -, hself, -⟩, -⟩
    have honly : twoFilesMap.graph.edgeList = [(("a.py::0", "b.py::1"), ())] := by decide +kernel
    unfold RepoMap.HasEdge at hself
    rw [honly, List.mem_singleton, Prod.mk.injEq, Prod.mk.injEq, file_callingChunk] at hself
    have htext : ({ names := ["a.py"] } : FilePath).text = "a.py" := by decide +kernel
    have hchars := congrArg String.toList hself.1.2
    rw [htext, RepoPlace.toList_encode] at hchars
    exact absurd (List.cons.inj hchars).1 (by decide)

end CodeAtlas.ChunkMap

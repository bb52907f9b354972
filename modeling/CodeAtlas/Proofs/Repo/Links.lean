import CodeAtlas.Proofs.Graphs
import CodeAtlas.Proofs.Repo.Keys
import CodeAtlas.Proofs.Scope.Readings
import CodeAtlas.Proofs.Scope.Shape
import CodeAtlas.Proofs.Source.Decoding
import CodeAtlas.Repo.Map

/-!
# The edges of a repository

The map of a repository is made file by file, import by import and export by export, and for each
of these once for each scope that refers to the imported name.  Scopes are kept under texts, and
nothing is ever taken away.  Each step adds one edge with its two ends, so that a row of steps adds
the edges of all of them.  The files are those of a proper tree, as all trees of a store of files
are: there, a file is known by its path, and its path by its text.

Main results:
  * `RepoMap.addTie_grows`: what one step adds;
  * `RepoMap.linkFile_grows`, `RepoMap.links_grow`: what one file adds, and what all of them add;
  * `RepoMap.build_grows`: what the whole map is made of;
  * `RepoMap.build_exact`: the edges and nodes of the map, and that no file is missed on the way.
-/

namespace CodeAtlas

/-! ## §1. Scopes that refer to a name. -/

/-- Scope `s` is where a reference to the name stands. -/
def ScopeMap.IsOrigin (g : ScopeMap) (name : String) (s : Nat) : Prop :=
  g.item? s = some .scope ∧ ∃ r, g.item? r = some .reference ∧ g.nameOf r = name ∧
    ⟨s, .refToOrigin⟩ ∈ g.links r

/-- Only references have a link to the scope they stand in. -/
theorem ScopeMap.Wired.reference_of_origin {g : ScopeMap} (wired : g.Wired) {r s : Nat}
    (h : ⟨s, .refToOrigin⟩ ∈ g.links r) : g.item? r = some .reference := by
  obtain ⟨item, hitem, hattached⟩ := wired.attached_of_link h
  obtain rfl : item = .reference := hattached.item_of_link h
  exact hitem

theorem FileImport.mem_scopesReferringTo {g : ScopeMap} (wired : g.Wired) {name : String}
    {s : Nat} : s ∈ scopesReferringTo g name ↔ g.IsOrigin name s := by
  unfold scopesReferringTo
  simp only [List.mem_flatMap, List.mem_map, List.mem_filter, ScopeMap.mem_scopes,
    ScopeMap.mem_sources, decide_eq_true_eq]
  constructor
  · rintro ⟨s', hscope, r, ⟨⟨-, hlink⟩, hname⟩, rfl⟩
    exact ⟨hscope, r, wired.reference_of_origin hlink, hname, hlink⟩
  · rintro ⟨hscope, r, hreference, hname, hlink⟩
    exact ⟨s, hscope, r, ⟨⟨ScopeMap.lt_size_of_item? hreference, hlink⟩, hname⟩, rfl⟩

namespace FileImport

variable {w : Setting} {file : FilePath} {g : ScopeMap}

/-- What an import is made of: one of the dotted names, the sort that the name has, and the scopes
that refer to the last part of it. -/
structure Resolved (w : Setting) (g : ScopeMap) (names : List Namespace) (i : FileImport) :
    Prop where
  name_mem : i.name ∈ names
  classified : ∃ before, classify w before i.name = .ok (i.sort, i.found)
  refScopes_eq : i.refScopes = scopesReferringTo g i.name.child

theorem resolved_of_resolveAll {before : Option FilePath} {names : List Namespace}
    {imports : List FileImport} (h : resolveAll w file g before names = .ok imports)
    {i : FileImport} (hi : i ∈ imports) : Resolved w g names i := by
  induction names generalizing before imports with
  | nil =>
    cases h
    cases hi
  | cons n names ih =>
    rw [resolveAll, Outcome.bind_ok] at h
    obtain ⟨⟨sort, found⟩, hsort, h⟩ := h
    rw [Outcome.bind_ok] at h
    obtain ⟨others, hothers, h⟩ := h
    rw [← Outcome.pure_ok.1 h] at hi
    obtain rfl | hi := List.mem_cons.1 hi
    · exact ⟨List.mem_cons_self, ⟨before, hsort⟩, rfl⟩
    · have hlater := ih hothers hi
      exact { hlater with name_mem := List.mem_cons_of_mem _ hlater.name_mem }

theorem refScopes_of_ofFile {imports : List FileImport} (h : ofFile w file g = .ok imports)
    {i : FileImport} (hi : i ∈ imports) : i.refScopes = scopesReferringTo g i.name.child := by
  rw [ofFile, Outcome.bind_ok] at h
  obtain ⟨rows, hrows, h⟩ := h
  rw [← Outcome.pure_ok.1 h, List.mem_flatten] at hi
  obtain ⟨row, hrow, hi⟩ := hi
  obtain ⟨statement, -, hrow⟩ := (Outcome.mem_of_mapM hrows).1 hrow
  exact (resolved_of_resolveAll hrow hi).refScopes_eq

end FileImport

namespace RepoMap

/-! ## §2. Files. -/

/-- The file is a source of the repository, and this is its scope map. -/
def HasScopes (w : FileImport.Setting) (readings : List Reading) (file : FilePath)
    (scopes : ScopeMap) : Prop :=
  ∃ e ∈ w.tree.sources, scopeMapOf w.tree readings e = .ok (file, scopes)

theorem filePath_of_scopeMapOf {tree : FileTree} {readings : List Reading} {e : FileEntry}
    {answer : FilePath × ScopeMap} (h : scopeMapOf tree readings e = .ok answer) :
    answer.1 = e.filePath := by
  rw [scopeMapOf, Outcome.bind_ok] at h
  obtain ⟨bytes, -, h⟩ := h
  rw [Outcome.bind_ok] at h
  obtain ⟨scopes, -, h⟩ := h
  rw [← Outcome.pure_ok.1 h]

theorem HasScopes.exists_reading {w : FileImport.Setting} {readings : List Reading}
    {file : FilePath} {scopes : ScopeMap} (h : HasScopes w readings file scopes) :
    ∃ r : Reading, r.scopeMap = .ok scopes := by
  obtain ⟨e, -, h⟩ := h
  rw [scopeMapOf, Outcome.bind_ok] at h
  obtain ⟨bytes, -, h⟩ := h
  rw [Outcome.bind_ok] at h
  obtain ⟨scopes', hread, h⟩ := h
  cases Outcome.pure_ok.1 h
  exact ⟨_, hread⟩

theorem HasScopes.wired {w : FileImport.Setting} {readings : List Reading} {file : FilePath}
    {scopes : ScopeMap} (h : HasScopes w readings file scopes) : scopes.Wired := by
  obtain ⟨r, hread⟩ := h.exists_reading
  exact ScopeMap.wired_of_reachable (Reading.reachable_scopeMap hread)

/-- What is there before the edges: the scope map of each source and its imports. -/
theorem unlinked_ok {w : FileImport.Setting} {readings : List Reading} {g : RepoMap}
    (h : unlinked w readings = .ok g) :
    g.tree = w.tree ∧ g.graph = {} ∧
      w.tree.sources.mapM (scopeMapOf w.tree readings) = .ok g.scopeMaps ∧
      (∀ file imports, (file, imports) ∈ g.imports ↔
        ∃ scopes, HasScopes w readings file scopes ∧
          FileImport.ofFile w file scopes = .ok imports) := by
  rw [unlinked, Outcome.bind_ok] at h
  obtain ⟨scopeMaps, hmaps, h⟩ := h
  rw [Outcome.bind_ok] at h
  obtain ⟨rows, hrows, h⟩ := h
  cases Outcome.pure_ok.1 h
  refine ⟨rfl, rfl, hmaps, ?_⟩
  intro file imports
  rw [Outcome.mem_of_mapM hrows]
  constructor
  · rintro ⟨⟨file', scopes⟩, hmem, hrow⟩
    obtain ⟨imports', hofFile, hpair⟩ := Outcome.bind_ok.1 hrow
    cases Outcome.pure_ok.1 hpair
    exact ⟨scopes, (Outcome.mem_of_mapM hmaps).1 hmem, hofFile⟩
  · rintro ⟨scopes, hscopes, hofFile⟩
    refine ⟨(file, scopes), (Outcome.mem_of_mapM hmaps).2 hscopes, ?_⟩
    exact Outcome.bind_ok.2 ⟨imports, hofFile, rfl⟩

/-- In a directory, the look-up of a source finds its scope map. -/
theorem scopeMap_iff {w : FileImport.Setting} {readings : List Reading} {g : RepoMap}
    (htree : w.tree.Proper)
    (hmaps : w.tree.sources.mapM (scopeMapOf w.tree readings) = .ok g.scopeMaps)
    {file : FilePath} {scopes : ScopeMap} :
    g.scopeMap file = .ok scopes ↔ HasScopes w readings file scopes := by
  have hkeys : g.scopeMaps.map (·.1) = w.tree.sources.map (·.filePath) :=
    Outcome.map_of_mapM (fun _ _ => filePath_of_scopeMapOf) hmaps
  have honce : (g.scopeMaps.map (·.1)).Nodup := hkeys ▸ htree.nodup_sources
  rw [HasScopes, ← Outcome.mem_of_mapM hmaps, ← Assoc.get?_eq_some honce, scopeMap]
  cases Assoc.get? file g.scopeMaps with
  | none => simp
  | some found => simp

/-- **No file is missed.**  The scope map of a file that was found for a module is there, unless it
is the opening file of a directory. -/
theorem exists_scopeMap {w : FileImport.Setting} {readings : List Reading} {g : RepoMap}
    (htree : w.tree.Proper)
    (hmaps : w.tree.sources.mapM (scopeMapOf w.tree readings) = .ok g.scopeMaps)
    {parts : List String} {file : FilePath} (hfind : w.tree.find? parts = some file)
    (hopening : Text.contains "__init__.py" file.text = false) :
    ∃ scopes, g.scopeMap file = .ok scopes := by
  obtain ⟨e, he, rfl⟩ := FileTree.source_of_find? hfind hopening
  obtain ⟨⟨file, scopes⟩, -, hread⟩ := Outcome.ok_of_mapM hmaps he
  have hfile := filePath_of_scopeMapOf hread
  dsimp only at hfile
  subst hfile
  exact ⟨scopes, (scopeMap_iff htree hmaps).2 ⟨e, he, hread⟩⟩

/-! ## §3. One step adds one edge. -/

/-- The text of a scope can be read. -/
def Readable (id : String) : Prop :=
  ∃ place, RepoPlace.decode id = .ok place

/-- A map that has grown by exactly the given edges and their ends, and is over the same files. -/
structure Grows (new : String → String → Prop) (g grown : RepoMap) : Prop where
  tree : grown.tree = g.tree
  scopeMaps : grown.scopeMaps = g.scopeMaps
  joins : ∀ u v, grown.graph.Joins u v ↔ g.graph.Joins u v ∨ new u v
  nodes : ∀ n, n ∈ grown.graph.nodes ↔ n ∈ g.graph.nodes ∨ ∃ u v, new u v ∧ (n = u ∨ n = v)
  readable : ∀ n, n ∈ grown.graph.nodes → n ∈ g.graph.nodes ∨ Readable n

/-- A node that is not there is added if it can be read. -/
theorem ensureNode_cases {g grown : RepoMap} {id noting : String}
    (h : g.ensureNode id noting = .ok grown) :
    (id ∈ g.graph.nodes ∧ grown = g) ∨ (Readable id ∧ grown =
      { g with graph := g.graph.addNode id, noted := Assoc.insertNew noting g.noted }) := by
  unfold ensureNode at h
  by_cases hthere : g.graph.nodes.contains id = true
  · rw [if_pos hthere] at h
    exact Or.inl ⟨List.contains_iff_mem.1 hthere, (Outcome.pure_ok.1 h).symm⟩
  · rw [if_neg hthere] at h
    obtain ⟨place, hplace, h⟩ := Outcome.bind_ok.1 h
    exact Or.inr ⟨⟨place, hplace⟩, (Outcome.pure_ok.1 h).symm⟩

theorem ensureNode_ok {g grown : RepoMap} {id noting : String}
    (h : g.ensureNode id noting = .ok grown) :
    grown.tree = g.tree ∧ grown.scopeMaps = g.scopeMaps ∧ grown.graph.edges = g.graph.edges ∧
      (∀ n, n ∈ grown.graph.nodes ↔ n ∈ g.graph.nodes ∨ n = id) ∧
      ∀ n, n ∈ grown.graph.nodes → n ∈ g.graph.nodes ∨ Readable n := by
  obtain ⟨hmem, rfl⟩ | ⟨hread, rfl⟩ := ensureNode_cases h
  · refine ⟨rfl, rfl, rfl, ?_, fun n hn => Or.inl hn⟩
    intro n
    constructor
    · exact Or.inl
    · rintro (hn | rfl)
      · exact hn
      · exact hmem
  · refine ⟨rfl, rfl, rfl, fun n => Digraph.mem_nodes_addNode _, ?_⟩
    intro n hn
    obtain hn | rfl := (Digraph.mem_nodes_addNode _).1 hn
    · exact Or.inl hn
    · exact Or.inr hread

/-- **One step.**  A tie adds the edge from the referring scope to the exported one. -/
theorem addTie_grows {g grown : RepoMap} {file : FilePath} {t : Tie} {refScope : Nat}
    (h : g.addTie file t refScope = .ok grown) :
    Grows (fun u v => u = RepoPlace.encode file.text refScope ∧
      v = RepoPlace.encode t.target.text t.scope) g grown := by
  simp only [addTie, Outcome.bind_ok, RepoPlace.write_ok] at h
  obtain ⟨_, ⟨rfl, -⟩, g₁, hsource, _, ⟨rfl, -⟩, g₂, htarget, h⟩ := h
  cases Outcome.pure_ok.1 h
  obtain ⟨htree₁, hmaps₁, hedges₁, hnodes₁, hread₁⟩ := ensureNode_ok hsource
  obtain ⟨htree₂, hmaps₂, hedges₂, hnodes₂, hread₂⟩ := ensureNode_ok htarget
  have hedges : g₂.graph.edges = g.graph.edges := hedges₂.trans hedges₁
  have hnodes : ∀ n, n ∈ g₂.graph.nodes ↔ n ∈ g.graph.nodes ∨
      n = RepoPlace.encode file.text refScope ∨ n = RepoPlace.encode t.target.text t.scope := by
    intro n
    rw [hnodes₂, ← or_assoc]
    exact or_congr (hnodes₁ n) Iff.rfl
  have hread : ∀ n, n ∈ g₂.graph.nodes → n ∈ g.graph.nodes ∨ Readable n := by
    intro n hn
    obtain hn | hn := hread₂ n hn
    · exact hread₁ n hn
    · exact Or.inr hn
  -- the ends are there when the edge is added, so that it adds no further node
  have hsame : ∀ n, n ∈ (g₂.graph.addEdge (RepoPlace.encode file.text refScope)
      (RepoPlace.encode t.target.text t.scope) ()).nodes ↔ n ∈ g₂.graph.nodes := by
    intro n
    rw [Digraph.mem_nodes_addEdge, hnodes]
    tauto
  refine ⟨htree₂.trans htree₁, hmaps₂.trans hmaps₁, ?_, ?_, ?_⟩
  · intro u v
    rw [Digraph.joins_addEdge]
    unfold Digraph.Joins
    rw [hedges]
  · intro n
    rw [hsame, hnodes]
    simp
  · intro n hn
    exact hread n ((hsame n).1 hn)

/-! ## §4. Steps in a row. -/

theorem Grows.none (g : RepoMap) : Grows (fun _ _ => False) g g where
  tree := rfl
  scopeMaps := rfl
  joins := by simp
  nodes := by simp
  readable := fun _ hn => Or.inl hn

theorem Grows.both (new more : String → String → Prop) (g next grown : RepoMap)
    (h : Grows new g next) (h' : Grows more next grown) :
    Grows (fun u v => new u v ∨ more u v) g grown where
  tree := h'.tree.trans h.tree
  scopeMaps := h'.scopeMaps.trans h.scopeMaps
  joins := by
    intro u v
    rw [h'.joins, h.joins, or_assoc]
  nodes := by
    intro n
    rw [h'.nodes, h.nodes, or_assoc]
    simp only [or_and_right, exists_or]
  readable := by
    intro n hn
    obtain hn | hn := h'.readable n hn
    · exact h.readable n hn
    · exact Or.inr hn

/-- An import is tied to what is exported by its name, in the file found for its module. -/
def TiedTo (g : RepoMap) (i : FileImport) (file : FilePath) (scope : Nat) : Prop :=
  g.tree.find? i.name.path.parts = some file ∧ Text.contains "__init__.py" file.text = false ∧
    ∃ scopes exports, g.scopeMap file = .ok scopes ∧ scopes.exports = .ok exports ∧
      (i.name.child, scope) ∈ exports

/-- The ties of an import: none without a file for its module, none from the opening file of a
directory, and else the exports with the imported name, in their row. -/
theorem tiesOf_cases {g : RepoMap} {i : FileImport} {ties : List Tie}
    (h : g.tiesOf i = .ok ties) :
    (g.tree.find? i.name.path.parts = none ∧ ties = []) ∨
    (∃ file, g.tree.find? i.name.path.parts = some file ∧
      Text.contains "__init__.py" file.text = true ∧ ties = []) ∨
    ∃ file scopes exports, g.tree.find? i.name.path.parts = some file ∧
      Text.contains "__init__.py" file.text = false ∧ g.scopeMap file = .ok scopes ∧
      scopes.exports = .ok exports ∧
      ties = (exports.filter fun e => e.1 = i.name.child).map fun e => ⟨i, e.2, e.1, file⟩ := by
  unfold tiesOf at h
  cases hfind : g.tree.find? i.name.path.parts with
  | none =>
    rw [hfind] at h
    exact Or.inl ⟨rfl, (Outcome.pure_ok.1 h).symm⟩
  | some file =>
    rw [hfind] at h
    dsimp only at h
    by_cases hopening : Text.contains "__init__.py" file.text = true
    · rw [if_pos hopening] at h
      exact Or.inr (Or.inl ⟨file, rfl, hopening, (Outcome.pure_ok.1 h).symm⟩)
    · rw [if_neg hopening] at h
      obtain ⟨scopes, hscopes, h⟩ := Outcome.bind_ok.1 h
      obtain ⟨exports, hexports, h⟩ := Outcome.bind_ok.1 h
      exact Or.inr (Or.inr ⟨file, scopes, exports, rfl, Bool.eq_false_iff.2 hopening, hscopes,
        hexports, (Outcome.pure_ok.1 h).symm⟩)

/-- The ties of an import are the exports it is tied to, each once with the import itself. -/
theorem mem_tiesOf {g : RepoMap} {i : FileImport} {ties : List Tie} (h : g.tiesOf i = .ok ties)
    {t : Tie} : t ∈ ties ↔ t.source = i ∧ t.name = i.name.child ∧ g.TiedTo i t.target t.scope := by
  obtain ⟨hfind, rfl⟩ | ⟨file, hfind, hopening, rfl⟩ |
    ⟨file, scopes, exports, hfind, hopening, hscopes, hexports, rfl⟩ := tiesOf_cases h
  · simp [TiedTo, hfind]
  · constructor
    · intro ht
      cases ht
    · rintro ⟨-, -, htied, hnot, -⟩
      rw [hfind, Option.some.injEq] at htied
      rw [← htied, hopening] at hnot
      cases hnot
  · rw [List.mem_map]
    constructor
    · rintro ⟨⟨name, scope⟩, hmem, rfl⟩
      obtain ⟨hmem, hname⟩ := List.mem_filter.1 hmem
      have hname : name = i.name.child := of_decide_eq_true hname
      subst hname
      exact ⟨rfl, rfl, hfind, hopening, scopes, exports, hscopes, hexports, hmem⟩
    · obtain ⟨source, scope, name, target⟩ := t
      rintro ⟨hsource, hname, htied, -, scopes', exports', hscopes', hexports', hmem⟩
      dsimp only at hsource hname htied hscopes' hmem
      subst hsource hname
      -- the file that was found, its scope map and its exports are the same
      rw [hfind, Option.some.injEq] at htied
      subst htied
      cases Except.ok.inj (hscopes.symm.trans hscopes')
      cases Except.ok.inj (hexports.symm.trans hexports')
      exact ⟨(source.name.child, scope), List.mem_filter.2 ⟨hmem, decide_eq_true rfl⟩, rfl⟩

/-- A tie is added for each of the scopes that refer to the imported name. -/
theorem addTies_grow {g grown : RepoMap} {file : FilePath} {t : Tie} {scopes : List Nat}
    (h : scopes.foldlM (fun g s => g.addTie file t s) g = .ok grown) :
    Grows (fun u v => ∃ s ∈ scopes, u = RepoPlace.encode file.text s ∧
      v = RepoPlace.encode t.target.text t.scope) g grown :=
  Outcome.foldlM_adds Grows.none Grows.both
    (fun (s : Nat) u v => u = RepoPlace.encode file.text s ∧
      v = RepoPlace.encode t.target.text t.scope) (fun _ _ _ _ _ => addTie_grows) h

/-- **One file.**  Its imports from the repository add an edge for each scope that refers to the
imported name and each export that the import is tied to. -/
theorem linkFile_grows {g grown : RepoMap} {file : FilePath} {imports : List FileImport}
    (h : g.linkFile file imports = .ok grown) :
    Grows (fun u v => ∃ i ∈ imports, i.sort = .inRepo ∧ ∃ target scope, g.TiedTo i target scope ∧
      ∃ s ∈ i.refScopes, u = RepoPlace.encode file.text s ∧
        v = RepoPlace.encode target.text scope) g grown := by
  rw [linkFile, Outcome.bind_ok] at h
  obtain ⟨ties, hties, h⟩ := h
  rw [tiesOfFile, Outcome.bind_ok] at hties
  obtain ⟨rows, hrows, hties⟩ := hties
  cases Outcome.pure_ok.1 hties
  have hgrows := Outcome.foldlM_adds Grows.none Grows.both
    (fun (t : Tie) u v => ∃ s ∈ t.source.refScopes, u = RepoPlace.encode file.text s ∧
      v = RepoPlace.encode t.target.text t.scope) (fun _ _ _ _ _ => addTies_grow) h
  -- the ties of a file are those of its imports from the repository
  refine Outcome.adds_congr hgrows fun u v => ?_
  constructor
  · rintro ⟨t, ht, s, hs, hu, hv⟩
    obtain ⟨row, hrow, ht⟩ := List.mem_flatten.1 ht
    obtain ⟨i, hi, hrow⟩ := (Outcome.mem_of_mapM hrows).1 hrow
    obtain ⟨hi, hsort⟩ := List.mem_filter.1 hi
    obtain ⟨rfl, -, htied⟩ := (mem_tiesOf hrow).1 ht
    exact ⟨t.source, hi, of_decide_eq_true hsort, t.target, t.scope, htied, s, hs, hu, hv⟩
  · rintro ⟨i, hi, hsort, target, scope, htied, s, hs, hu, hv⟩
    obtain ⟨row, hrowMem, hrow⟩ := Outcome.ok_of_mapM hrows
      (List.mem_filter.2 ⟨hi, decide_eq_true hsort⟩)
    refine ⟨⟨i, scope, i.name.child, target⟩, List.mem_flatten.2 ⟨row, hrowMem, ?_⟩, s, hs, hu, hv⟩
    exact (mem_tiesOf hrow).2 ⟨rfl, rfl, htied⟩

/-- What an import is tied to depends on the files alone. -/
theorem TiedTo.of_same {g next : RepoMap} (htree : next.tree = g.tree)
    (hmaps : next.scopeMaps = g.scopeMaps) {i : FileImport} {file : FilePath} {scope : Nat} :
    next.TiedTo i file scope ↔ g.TiedTo i file scope := by
  unfold TiedTo scopeMap
  rw [htree, hmaps]

/-- **All files.**  The stages of the map are over the files it begins with, and each has the edges
of the files that were looked at. -/
theorem links_grow {g grown : RepoMap} {files : List (FilePath × List FileImport)}
    (h : files.foldlM (fun g (file, imports) => g.linkFile file imports) g = .ok grown) :
    Grows (fun u v => ∃ f ∈ files, ∃ i ∈ f.2, i.sort = .inRepo ∧ ∃ target scope,
      g.TiedTo i target scope ∧ ∃ s ∈ i.refScopes, u = RepoPlace.encode f.1.text s ∧
        v = RepoPlace.encode target.text scope) g grown := by
  refine Outcome.foldlM_adds Grows.none Grows.both _ ?_ h
  rintro ⟨file, imports⟩ next after sofar hsofar hnext
  refine Outcome.adds_congr (linkFile_grows hnext) fun u v => ?_
  simp only [TiedTo.of_same hsofar.tree hsofar.scopeMaps]

/-! ## §5. The whole map. -/

/-- Scope `d` of file `t` is what the file exports by the name. -/
def Exports (w : FileImport.Setting) (readings : List Reading) (t : FilePath) (name : String)
    (d : Nat) : Prop :=
  ∃ scopes exports, HasScopes w readings t scopes ∧ scopes.exports = .ok exports ∧
    (name, d) ∈ exports

/-- Scope `s` of file `f` refers to a name that the file imports from file `t` of the repository,
and `t` exports its scope `d` by that name. -/
def Tied (w : FileImport.Setting) (readings : List Reading) (f : FilePath) (s : Nat)
    (t : FilePath) (d : Nat) : Prop :=
  ∃ scopes imports i, HasScopes w readings f scopes ∧ FileImport.ofFile w f scopes = .ok imports ∧
    i ∈ imports ∧ i.sort = .inRepo ∧ w.tree.find? i.name.path.parts = some t ∧
    Text.contains "__init__.py" t.text = false ∧ Exports w readings t i.name.child d ∧
    scopes.IsOrigin i.name.child s

variable {w : FileImport.Setting} {readings : List Reading} {g : RepoMap}

theorem tiedTo_iff {g₀ : RepoMap} (htree : w.tree.Proper) (h : unlinked w readings = .ok g₀)
    {i : FileImport} {t : FilePath} {d : Nat} :
    g₀.TiedTo i t d ↔ w.tree.find? i.name.path.parts = some t ∧
      Text.contains "__init__.py" t.text = false ∧ Exports w readings t i.name.child d := by
  obtain ⟨hsame, -, hmaps, -⟩ := unlinked_ok h
  unfold TiedTo Exports
  simp only [hsame, scopeMap_iff htree hmaps]

/-- The edges of the map are those of the ties, and its nodes are their ends. -/
theorem build_grows (htree : w.tree.Proper) (h : build w readings = .ok g) :
    (∀ u v, g.graph.Joins u v ↔ ∃ f s t d, Tied w readings f s t d ∧
      u = RepoPlace.encode f.text s ∧ v = RepoPlace.encode t.text d) ∧
    (∀ n, n ∈ g.graph.nodes ↔ ∃ u v, g.graph.Joins u v ∧ (n = u ∨ n = v)) ∧
    ∀ n, n ∈ g.graph.nodes → Readable n := by
  rw [build, Outcome.bind_ok] at h
  obtain ⟨g₀, hstart, h⟩ := h
  obtain ⟨-, hgraph, -, himports⟩ := unlinked_ok hstart
  have hgrows := links_grow h
  -- before the first file there are no edges and no nodes
  have hjoins : ∀ u v, ¬ g₀.graph.Joins u v := by
    intro u v
    rw [hgraph]
    exact List.not_mem_nil
  have hnodes : ∀ n, n ∉ g₀.graph.nodes := by
    intro n
    rw [hgraph]
    exact List.not_mem_nil
  refine ⟨?_, ?_, ?_⟩
  · intro u v
    rw [hgrows.joins, or_iff_right (hjoins u v)]
    constructor
    · rintro ⟨⟨f, imports⟩, hf, i, hi, hsort, t, d, htied, s, hs, hu, hv⟩
      obtain ⟨scopes, hscopes, hofFile⟩ := (himports f imports).1 hf
      obtain ⟨hfind, hopening, hexports⟩ := (tiedTo_iff htree hstart).1 htied
      rw [FileImport.refScopes_of_ofFile hofFile hi,
        FileImport.mem_scopesReferringTo hscopes.wired] at hs
      exact ⟨f, s, t, d, ⟨scopes, imports, i, hscopes, hofFile, hi, hsort, hfind, hopening,
        hexports, hs⟩, hu, hv⟩
    · rintro ⟨f, s, t, d, ⟨scopes, imports, i, hscopes, hofFile, hi, hsort, hfind, hopening,
        hexports, hs⟩, hu, hv⟩
      refine ⟨(f, imports), (himports f imports).2 ⟨scopes, hscopes, hofFile⟩, i, hi, hsort, t, d,
        (tiedTo_iff htree hstart).2 ⟨hfind, hopening, hexports⟩, s, ?_, hu, hv⟩
      rw [FileImport.refScopes_of_ofFile hofFile hi,
        FileImport.mem_scopesReferringTo hscopes.wired]
      exact hs
  · intro n
    rw [hgrows.nodes, or_iff_right (hnodes n)]
    simp only [hgrows.joins, or_iff_right (hjoins _ _)]
  · intro n hn
    exact (hgrows.readable n hn).resolve_left (hnodes n)

/-- The map has the edge from scope `s` of file `f` to scope `d` of file `t`. -/
def HasEdge (g : RepoMap) (f : FilePath) (s : Nat) (t : FilePath) (d : Nat) : Prop :=
  ((RepoPlace.encode f.text s, RepoPlace.encode t.text d), ()) ∈ g.graph.edgeList

/-- A readable text stands for one scope of one file. -/
theorem Readable.eq_of_encode {f f' : FilePath} {s s' : Nat}
    (hread : Readable (RepoPlace.encode f.text s)) (hf : f.Proper) (hf' : f'.Proper)
    (heq : RepoPlace.encode f.text s = RepoPlace.encode f'.text s') : f = f' ∧ s = s' := by
  obtain ⟨place, hplace⟩ := hread
  have hleft := RepoPlace.eq_of_decode_encode hplace
  rw [heq] at hplace
  have hright := RepoPlace.eq_of_decode_encode hplace
  obtain ⟨htext, hscope⟩ := RepoPlace.mk.inj (hleft.symm.trans hright)
  refine ⟨?_, Int.ofNat.inj hscope⟩
  calc f = FilePath.ofText f.text := (FilePath.ofText_text hf).symm
    _ = FilePath.ofText f'.text := by rw [htext]
    _ = f' := FilePath.ofText_text hf'

theorem HasScopes.proper (htree : w.tree.Proper) {file : FilePath} {scopes : ScopeMap}
    (h : HasScopes w readings file scopes) : file.Proper := by
  obtain ⟨e, he, h⟩ := h
  have hfile := filePath_of_scopeMapOf h
  dsimp only at hfile
  rw [hfile]
  exact htree.paths e (FileTree.mem_entries_of_mem_sources he)

theorem Tied.proper (htree : w.tree.Proper) {f t : FilePath} {s d : Nat}
    (h : Tied w readings f s t d) : f.Proper ∧ t.Proper := by
  obtain ⟨scopes, imports, i, hscopes, -, -, -, -, -, ⟨other, exports, hother, -⟩, -⟩ := h
  exact ⟨hscopes.proper htree, hother.proper htree⟩

/-- The listed edges are the edges: each goes out from a node. -/
theorem mem_edgeList_iff (htree : w.tree.Proper) (h : build w readings = .ok g) {u v : String} :
    ((u, v), ()) ∈ g.graph.edgeList ↔ g.graph.Joins u v := by
  rw [Digraph.mem_edgeList, Digraph.Joins, List.mem_map]
  constructor
  · rintro ⟨hmem, -⟩
    exact ⟨((u, v), ()), hmem, rfl⟩
  · rintro ⟨⟨⟨u', v'⟩, ⟨⟩⟩, hmem, heq⟩
    cases heq
    exact ⟨hmem, ((build_grows htree h).2.1 u).2 ⟨u, v, List.mem_map.2 ⟨_, hmem, rfl⟩, Or.inl rfl⟩⟩

theorem hasEdge_iff (htree : w.tree.Proper) (h : build w readings = .ok g) {f t : FilePath}
    {s d : Nat} (hf : f.Proper) (ht : t.Proper) :
    g.HasEdge f s t d ↔ Tied w readings f s t d := by
  obtain ⟨hjoins, hnodes, hread⟩ := build_grows htree h
  rw [HasEdge, mem_edgeList_iff htree h]
  constructor
  · intro hedge
    obtain ⟨f', s', t', d', htied, hu, hv⟩ := (hjoins _ _).1 hedge
    obtain ⟨hf', ht'⟩ := htied.proper htree
    -- both ends are nodes, and so their texts can be read
    have hsource := hread _ ((hnodes _).2 ⟨_, _, hedge, Or.inl rfl⟩)
    have htarget := hread _ ((hnodes _).2 ⟨_, _, hedge, Or.inr rfl⟩)
    obtain ⟨rfl, rfl⟩ := hsource.eq_of_encode hf hf' hu
    obtain ⟨rfl, rfl⟩ := htarget.eq_of_encode ht ht' hv
    exact htied
  · intro htied
    exact (hjoins _ _).2 ⟨f, s, t, d, htied, rfl, rfl⟩

/-- The scope maps of the map are those of the sources. -/
theorem scopeMap_of_build (htree : w.tree.Proper) (h : build w readings = .ok g)
    {file : FilePath} {scopes : ScopeMap} :
    g.scopeMap file = .ok scopes ↔ HasScopes w readings file scopes := by
  rw [build, Outcome.bind_ok] at h
  obtain ⟨g₀, hstart, h⟩ := h
  obtain ⟨-, -, hmaps, -⟩ := unlinked_ok hstart
  rw [← (links_grow h).scopeMaps] at hmaps
  exact scopeMap_iff htree hmaps

/-- When a map is built, the imports of each source have been resolved. -/
theorem ofFile_of_build (h : build w readings = .ok g) {file : FilePath} {scopes : ScopeMap}
    (hscopes : HasScopes w readings file scopes) :
    ∃ imports, FileImport.ofFile w file scopes = .ok imports := by
  rw [build, Outcome.bind_ok] at h
  obtain ⟨g₀, hstart, -⟩ := h
  rw [unlinked, Outcome.bind_ok] at hstart
  obtain ⟨scopeMaps, hmaps, hstart⟩ := hstart
  rw [Outcome.bind_ok] at hstart
  obtain ⟨rows, hrows, -⟩ := hstart
  obtain ⟨row, -, hrow⟩ := Outcome.ok_of_mapM hrows ((Outcome.mem_of_mapM hmaps).2 hscopes)
  obtain ⟨imports, himports, -⟩ := Outcome.bind_ok.1 hrow
  exact ⟨imports, himports⟩

/-- The exports that a scope refers to are the ends of its edges. -/
theorem mem_exportsFor (htree : w.tree.Proper) (h : build w readings = .ok g) {f : FilePath}
    {s : Nat} {places : List RepoPlace}
    (hplaces : g.exportsFor (RepoPlace.encode f.text s) = .ok places) {place : RepoPlace} :
    place ∈ places ↔ ∃ t d, t.Proper ∧ g.HasEdge f s t d ∧ place = ⟨t.text, (d : Nat)⟩ := by
  obtain ⟨hjoins, -, -⟩ := build_grows htree h
  constructor
  · intro hplace
    obtain ⟨v, hv, hdecode⟩ := (Outcome.mem_of_mapM hplaces).1 hplace
    rw [Digraph.mem_targets] at hv
    obtain ⟨f', s', t, d, htied, -, rfl⟩ := (hjoins _ _).1 hv
    exact ⟨t, d, (htied.proper htree).2, (mem_edgeList_iff htree h).2 hv,
      RepoPlace.eq_of_decode_encode hdecode⟩
  · rintro ⟨t, d, -, hedge, rfl⟩
    have hv := (mem_edgeList_iff htree h).1 hedge
    obtain ⟨place, hplace, hdecode⟩ := Outcome.ok_of_mapM hplaces ((Digraph.mem_targets _).2 hv)
    rwa [RepoPlace.eq_of_decode_encode hdecode] at hplace

/-- **The map of a repository is exact.**  While it is made, the scope map of a file that was found
for a module is never missing.  Its edges are the ties between files, and its nodes are their
ends. -/
theorem build_exact (w : FileImport.Setting) (readings : List Reading) (htree : w.tree.Proper) :
    (∀ g₀ done g, unlinked w readings = .ok g₀ → done <+: g₀.imports →
      done.foldlM (fun g (file, imports) => g.linkFile file imports) g₀ = .ok g →
        ∀ parts t, g.tree.find? parts = some t → Text.contains "__init__.py" t.text = false →
          ∃ scopes, g.scopeMap t = .ok scopes) ∧
    ∀ g, build w readings = .ok g →
      (∀ f s t d, f.Proper → t.Proper → (g.HasEdge f s t d ↔ Tied w readings f s t d)) ∧
      (∀ e ∈ g.graph.edgeList, ∃ f s t d, Tied w readings f s t d ∧
        e.1 = (RepoPlace.encode f.text s, RepoPlace.encode t.text d)) ∧
      ∀ n, n ∈ g.graph.nodes ↔ ∃ f s t d, Tied w readings f s t d ∧
        (n = RepoPlace.encode f.text s ∨ n = RepoPlace.encode t.text d) := by
  constructor
  · intro g₀ done g hstart _ hdone parts t hfind hopening
    obtain ⟨hsame, -, hmaps, -⟩ := unlinked_ok hstart
    have hgrows := links_grow hdone
    rw [← hgrows.scopeMaps] at hmaps
    rw [hgrows.tree, hsame] at hfind
    exact exists_scopeMap htree hmaps hfind hopening
  · intro g h
    obtain ⟨hjoins, hnodes, -⟩ := build_grows htree h
    refine ⟨fun f s t d hf ht => hasEdge_iff htree h hf ht, ?_, ?_⟩
    · rintro ⟨⟨u, v⟩, ⟨⟩⟩ he
      obtain ⟨f, s, t, d, htied, rfl, rfl⟩ := (hjoins u v).1 ((mem_edgeList_iff htree h).1 he)
      exact ⟨f, s, t, d, htied, rfl⟩
    · intro n
      rw [hnodes]
      constructor
      · rintro ⟨u, v, hedge, hn⟩
        obtain ⟨f, s, t, d, htied, rfl, rfl⟩ := (hjoins u v).1 hedge
        exact ⟨f, s, t, d, htied, hn⟩
      · rintro ⟨f, s, t, d, htied, hn⟩
        exact ⟨_, _, (hjoins _ _).2 ⟨f, s, t, d, htied, rfl, rfl⟩, hn⟩

/-! ## §6. A repository of two files. -/

/-- The source of `a.py`, which imports `foo` from `b` and calls it. -/
def caller : Reading :=
  ⟨"from b import foo\nfoo()\n".toUTF8, 0, 24,
    [⟨0, 17, "local.import.statement"⟩, ⟨5, 6, "local.import.module"⟩,
      ⟨14, 17, "local.import.name"⟩, ⟨18, 21, "local.reference"⟩]⟩

/-- The source of `b.py`, in which the function `foo` is a scope of its own. -/
def callee : Reading :=
  ⟨"def foo():\n  pass\n".toUTF8, 0, 18,
    [⟨0, 17, "local.scope"⟩, ⟨4, 7, "local.definition.function"⟩]⟩

def callerScopes : ScopeMap where
  nodes := #[{ range := ⟨0, 24, 0, 0, 2, 0⟩, item := .scope },
    { range := ⟨0, 17, 0, 0, 0, 17⟩, item := .importStmt { names := ["foo"], source := "b" },
      links := [⟨0, .importToScope⟩] },
    { range := ⟨18, 21, 1, 0, 1, 3⟩, item := .reference, name := "foo",
      links := [⟨1, .refToImport⟩, ⟨0, .refToOrigin⟩] }]
  placed := [(⟨0, 24, 0, 0, 2, 0⟩, 0)]

def calleeScopes : ScopeMap where
  nodes := #[{ range := ⟨0, 18, 0, 0, 2, 0⟩, item := .scope },
    { range := ⟨0, 17, 0, 0, 1, 6⟩, item := .scope, links := [⟨0, .scopeToScope⟩] },
    { range := ⟨4, 7, 0, 4, 0, 7⟩, item := .definition (.recorded (some "function")),
      name := "foo", links := [⟨1, .defToScope⟩] }]
  placed := [(⟨0, 18, 0, 0, 2, 0⟩, 0), (⟨0, 17, 0, 0, 1, 6⟩, 1)]

theorem scopeMap_callee : callee.scopeMap = .ok calleeScopes := by
  have hrange : callee.range = ⟨0, 18, 0, 0, 2, 0⟩ := by
    simp only [Reading.range, SourceRange.between, Source.pointAt_eq]
    decide +kernel
  have hroles : callee.roles = [(⟨0, 17, 0, 0, 1, 6⟩, .scope),
      (⟨4, 7, 0, 4, 0, 7⟩, .definition "local" (some "function"))] := by
    simp only [Reading.roles, SourceRange.between, Source.pointAt_eq]
    decide +kernel
  rw [Reading.scopeMap, hrange, hroles]
  decide +kernel

theorem scopeMap_caller : caller.scopeMap = .ok callerScopes := by
  have hrange : caller.range = ⟨0, 24, 0, 0, 2, 0⟩ := by
    simp only [Reading.range, SourceRange.between, Source.pointAt_eq]
    decide +kernel
  have hroles : caller.roles = [(⟨0, 17, 0, 0, 0, 17⟩, .importStmt),
      (⟨5, 6, 0, 5, 0, 6⟩, .importPart "module"), (⟨14, 17, 0, 14, 0, 17⟩, .importPart "name"),
      (⟨18, 21, 1, 0, 1, 3⟩, .reference)] := by
    simp only [Reading.roles, SourceRange.between, Source.pointAt_eq]
    decide +kernel
  rw [Reading.scopeMap, hrange, hroles]
  -- the map before the reference, which stands in the scope of the whole source
  let start : ScopeMap := ⟨callerScopes.nodes.take 1, callerScopes.placed⟩
  let before : ScopeMap := ⟨callerScopes.nodes.take 2, callerScopes.placed⟩
  have hat : before.scopeAt ⟨18, 21, 1, 0, 1, 3⟩ = 0 := by decide +kernel
  have hchain : before.outward 0 = [0] := by decide +kernel
  have hmeasure : (SourceRange.mk 18 21 1 0 1 3).rows.measure = .ok () := by decide +kernel
  have hrefer : before.refer ⟨18, 21, 1, 0, 1, 3⟩ "foo" = callerScopes := by
    rw [ScopeMap.refer_eq, hat, hchain]
    decide +kernel
  have hinsert : before.insertAll [.reference ⟨18, 21, 1, 0, 1, 3⟩ "foo"] = .ok callerScopes := by
    rw [ScopeMap.insertAll_reference hmeasure, hrefer]
  refine Outcome.bind_ok.2 ⟨[], rfl, Outcome.bind_ok.2 ⟨start, by decide +kernel, ?_⟩⟩
  refine Outcome.bind_ok.2 ⟨start, rfl, Outcome.bind_ok.2 ⟨before, by decide +kernel, ?_⟩⟩
  refine Outcome.bind_ok.2 ⟨before, rfl, Outcome.bind_ok.2 ⟨callerScopes, ?_, rfl⟩⟩
  exact Outcome.bind_ok.2 ⟨"foo", by decide +kernel, hinsert⟩

section Pair

variable (a b : Reading)

/-- Two files, and no modules that come from elsewhere. -/
def pairOf : FileImport.Setting where
  tree := ⟨["repo"], [], [⟨["a.py"], ["a.py"], some a.source⟩, ⟨["b.py"], ["b.py"], some b.source⟩]⟩
  system := .systemOf none
  thirdParty := .thirdPartyOf none

theorem proper_pairOf : (pairOf a b).tree.Proper where
  distinct := by
    show [["a.py"], ["b.py"]].Nodup
    decide
  paths := by
    have hname : ∀ n ∈ ["a.py", "b.py"], n ≠ "" ∧ n ≠ "." ∧ '/' ∉ n.toList := by simp
    intro e he
    obtain ⟨n, hn, hplace⟩ : ∃ n ∈ ["a.py", "b.py"], e.place = [n] := by
      simp only [pairOf, List.mem_cons, List.not_mem_nil, or_false] at he
      obtain rfl | rfl := he
      all_goals simp
    refine ⟨rfl, ?_, ?_⟩
    · simp [FileEntry.filePath, hplace]
    · simpa [FileEntry.filePath, hplace] using hname n hn

variable {a b}

theorem find_pair (hne : ¬ b.source.data = a.source.data) :
    Reading.find [a, b] a.source = a ∧ Reading.find [a, b] b.source = b := by
  simp [Reading.find, hne]

/-- Their scope maps are those of their readings. -/
theorem scopeMaps_pairOf {readings : List Reading} (hfound : Reading.find readings a.source = a ∧
      Reading.find readings b.source = b) {inA inB : ScopeMap}
    (ha : a.scopeMap = .ok inA) (hb : b.scopeMap = .ok inB) :
    (pairOf a b).tree.sources.mapM (scopeMapOf (pairOf a b).tree readings)
      = .ok [({ names := ["a.py"] }, inA), ({ names := ["b.py"] }, inB)] := by
  have hnamed : FilePath.endingOf "a.py" = sourceEnding ∧
      FilePath.endingOf "b.py" = sourceEnding := by decide
  have hsources : (pairOf a b).tree.sources = (pairOf a b).tree.entries := by
    simp [FileTree.sources, FileTree.listed, FileEntry.isSource, pairOf, hnamed]
  rw [hsources]
  show [(⟨["a.py"], ["a.py"], some a.source⟩ : FileEntry),
    ⟨["b.py"], ["b.py"], some b.source⟩].mapM _ = _
  simp only [List.mapM_cons, List.mapM_nil, scopeMapOf, FileTree.read, bind, Except.bind,
    hfound.1, hfound.2, ha, hb]
  rfl

end Pair

/-- The two files, and no modules that come from elsewhere. -/
def twoFiles : FileImport.Setting :=
  pairOf caller callee

theorem proper_twoFiles : twoFiles.tree.Proper :=
  proper_pairOf caller callee

def twoFilesMap : RepoMap where
  tree := twoFiles.tree
  scopeMaps := [({ names := ["a.py"] }, callerScopes), ({ names := ["b.py"] }, calleeScopes)]
  imports := [({ names := ["a.py"] }, [⟨⟨["b"], ["foo"]⟩, .inRepo, { names := ["a.py"] },
    some { names := ["b.py"] }, [0]⟩]), ({ names := ["b.py"] }, [])]
  missing := [({ names := ["a.py"] }, []), ({ names := ["b.py"] }, [])]
  resolved := [({ names := ["a.py"] }, ["foo"])]
  noted := ["a.py::0"]
  graph := ⟨["a.py::0", "b.py::1"], [(("a.py::0", "b.py::1"), ())]⟩

theorem build_twoFiles : build twoFiles [caller, callee] = .ok twoFilesMap := by
  have hne : ¬ callee.source.data = caller.source.data := by decide
  have hmaps : twoFiles.tree.sources.mapM (scopeMapOf twoFiles.tree [caller, callee]) =
      .ok twoFilesMap.scopeMaps :=
    scopeMaps_pairOf (find_pair hne) scopeMap_caller scopeMap_callee
  rw [build, unlinked, hmaps]
  decide

/-- The call in `a.py` is tied to the function in `b.py`, and nothing in `b.py` is tied to
`a.py`. -/
theorem build_exact_twoFiles :
    build twoFiles [caller, callee] = .ok twoFilesMap ∧
      Tied twoFiles [caller, callee] { names := ["a.py"] } 0 { names := ["b.py"] } 1 ∧
      ¬ Tied twoFiles [caller, callee] { names := ["b.py"] } 1 { names := ["a.py"] } 0 := by
  obtain ⟨hedges, -, -⟩ := (build_exact twoFiles [caller, callee] proper_twoFiles).2 _ build_twoFiles
  have ha : ({ names := ["a.py"] } : FilePath).Proper :=
    proper_twoFiles.paths _ (List.mem_cons_self)
  have hb : ({ names := ["b.py"] } : FilePath).Proper :=
    proper_twoFiles.paths _ (List.mem_cons_of_mem _ List.mem_cons_self)
  refine ⟨build_twoFiles, (hedges _ _ _ _ ha hb).1 ?_, fun htied => ?_⟩
  · show (_, _) ∈ _
    decide +kernel
  · have hno : ((RepoPlace.encode "b.py" 1, RepoPlace.encode "a.py" 0), ()) ∉
        twoFilesMap.graph.edgeList := by decide +kernel
    exact hno ((hedges _ _ _ _ hb ha).2 htied)

end RepoMap

end CodeAtlas

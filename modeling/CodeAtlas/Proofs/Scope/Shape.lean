import CodeAtlas.Proofs.Scope.Resolution

/-!
# The shape of a scope map

Whatever is inserted into a scope map, and whether the insertions fail or not, each sort of node
keeps to its own sort of links.  All links lead to older nodes, so that the way along them ends, and
the first node is the only one without links.  No two links of a node lead to the same node: a link
that is there is never made a second time under another kind.

Main results:
  * `ScopeMap.linksDiffer_of_reachable`: the links of a node lead to different nodes;
  * `ScopeMap.Attached.reference_links`: the links of a reference;
  * `ScopeMap.shaped_of_insertions`: the shape of a map after any row of insertions.
-/

namespace CodeAtlas.ScopeMap

/-! ## §1. Links to different nodes. -/

/-- The links of each node lead to different nodes. -/
def LinksDiffer (g : ScopeMap) : Prop :=
  ∀ i, ((g.links i).map (·.target)).Nodup

/-- An insertion leaves the map as it is, or adds a node: a reference with the links of its name, or
anything else with one link, which is not that of a reference to its scope. -/
theorem insert_links (g : ScopeMap) (new : Insertion) :
    (g.insert new).2 = g ∨ ∃ node, (g.insert new).2.nodes = g.nodes.push node ∧
      ((new.Binds ∧ ∃ link, node.links = [link] ∧ link.kind ≠ .refToOrigin) ∨ ∃ range name,
        new = .reference range name ∧ node = {
          range, name, item := .reference
          links := g.referenceLinks (g.outward (g.scopeAt range)) name (g.scopeAt range) }) := by
  refine (insert_nodes g new).imp_right fun hnodes => ⟨g.nodeOf new, hnodes, ?_⟩
  cases new with
  | scope range => exact Or.inl ⟨trivial, _, rfl, by simp⟩
  | importStmt range statement => exact Or.inl ⟨trivial, _, rfl, by simp⟩
  | definition scoping range name sort =>
    cases scoping with
    | global => exact Or.inl ⟨trivial, _, rfl, by simp⟩
    | hoisted => exact Or.inl ⟨trivial, _, rfl, by simp⟩
    | inPlace => exact Or.inl ⟨trivial, _, rfl, by simp⟩
  | reference range name => exact Or.inr ⟨range, name, rfl, rfl⟩

theorem LinksDiffer.insert {g : ScopeMap} (wired : g.Wired) (h : g.LinksDiffer)
    (new : Insertion) : (g.insert new).2.LinksDiffer := by
  obtain hsame | ⟨node, hnodes, hlinks⟩ := insert_links g new
  · rw [hsame]
    exact h
  intro i
  rw [links_push hnodes]
  by_cases hi : i = g.nodes.size
  · rw [if_pos hi]
    obtain ⟨-, link, hone, -⟩ | ⟨range, name, -, hreference⟩ := hlinks
    · rw [hone]
      exact List.nodup_singleton _
    · rw [hreference]
      exact wired.referenceLinks_nodup (outward_nodup g _) name (wired.olderScope_scopeAt range).2
  · rw [if_neg hi]
    exact h i

theorem linksDiffer_of_reachable {allowed : Insertion → Prop} {source : SourceRange}
    {g : ScopeMap} (h : Reachable allowed source g) : g.LinksDiffer := by
  induction h with
  | start hstart =>
    obtain ⟨-, rfl⟩ := empty_ok hstart
    intro i
    -- the one node there is has no links, and beyond it there are none either
    cases i with
    | zero => exact List.nodup_nil
    | succ i => exact List.nodup_nil
  | insert new hreach _ ih => exact ih.insert (wired_of_reachable hreach) new

/-! ## §2. Links by the sort of the node. -/

theorem item?_isSome_iff (g : ScopeMap) (i : Nat) :
    (g.item? i).isSome = true ↔ i < g.nodes.size := by
  unfold item?
  rw [Option.isSome_map, isSome_getElem?]

theorem lt_size_of_link {g : ScopeMap} {i : Nat} {l : Link} (h : l ∈ g.links i) :
    i < g.nodes.size := by
  by_contra hi
  unfold links at h
  rw [Array.getElem?_eq_none (by omega)] at h
  cases h

theorem mem_edges {g : ScopeMap} {i : Nat} {l : Link} : (i, l) ∈ g.edges ↔ l ∈ g.links i := by
  unfold edges
  simp only [List.mem_flatMap, List.mem_range, List.mem_map, Prod.mk.injEq]
  constructor
  · rintro ⟨j, -, k, hk, rfl, rfl⟩
    exact hk
  · intro hl
    exact ⟨i, lt_size_of_link hl, l, hl, rfl, rfl⟩

/-- All links of an attached node lead to older nodes. -/
theorem Attached.target_lt {g : ScopeMap} {i : Nat} {item : ScopeItem} {links : List Link}
    (h : g.Attached i item links) {l : Link} (hl : l ∈ links) : l.target < i := by
  cases h with
  | scope hp =>
    rw [List.mem_singleton.1 hl]
    exact hp.1
  | definition hp =>
    rw [List.mem_singleton.1 hl]
    exact hp.1
  | importStmt hp =>
    rw [List.mem_singleton.1 hl]
    exact hp.1
  | reference _ hnames horigin =>
    obtain hnamed | hlast := List.mem_append.1 hl
    · cases hnames l hnamed with
      | definition hlt _ => exact hlt
      | importStmt hlt _ => exact hlt
    · rw [List.mem_singleton.1 hlast]
      exact horigin.1

/-- What a reference means is a definition or an import, and never the scope it stands in. -/
theorem Names.kind_cases {g : ScopeMap} {i : Nat} {l : Link} (h : g.Names i l) :
    l.kind ≠ .refToOrigin ∧
      ((l.kind = .refToDef ∧ ∃ sort, g.item? l.target = some (.definition sort)) ∨
        (l.kind = .refToImport ∧ ∃ statement, g.item? l.target = some (.importStmt statement))) := by
  cases h with
  | definition _ hitem => exact ⟨by simp, Or.inl ⟨rfl, _, hitem⟩⟩
  | importStmt _ hitem => exact ⟨by simp, Or.inr ⟨rfl, _, hitem⟩⟩

/-- The kind of a link tells what the node that it leaves stands for. -/
theorem Attached.item_of_link {g : ScopeMap} {i : Nat} {item : ScopeItem} {links : List Link}
    (h : g.Attached i item links) {l : Link} (hl : l ∈ links) :
    match l.kind with
    | .scopeToScope => item = .scope
    | .defToScope => ∃ sort, item = .definition sort
    | .importToScope => ∃ statement, item = .importStmt statement
    | .refToDef | .refToOrigin | .refToImport => item = .reference := by
  cases h with
  | scope _ =>
    rw [List.mem_singleton.1 hl]
  | definition _ =>
    rw [List.mem_singleton.1 hl]
    exact ⟨_, rfl⟩
  | importStmt _ =>
    rw [List.mem_singleton.1 hl]
    exact ⟨_, rfl⟩
  | reference _ hnames _ =>
    obtain hnamed | hlast := List.mem_append.1 hl
    · obtain ⟨hkind, -⟩ | ⟨hkind, -⟩ := (hnames l hnamed).kind_cases.2
      · rw [hkind]
      · rw [hkind]
    · rw [List.mem_singleton.1 hlast]

/-- A reference has one link to the scope it stands in, and others that say what it means. -/
theorem Attached.reference_links {g : ScopeMap} {i : Nat} {links : List Link}
    (h : g.Attached i .reference links) :
    (∃ origin, links.filter (fun l => l.kind = .refToOrigin) = [⟨origin, .refToOrigin⟩] ∧
        g.item? origin = some .scope) ∧
      (∃ l ∈ links, l.kind ≠ .refToOrigin) ∧
      ∀ l ∈ links, l.kind ≠ .refToOrigin →
        (l.kind = .refToDef ∧ ∃ sort, g.item? l.target = some (.definition sort)) ∨
          (l.kind = .refToImport ∧ ∃ statement, g.item? l.target = some (.importStmt statement)) := by
  generalize hitem : ScopeItem.reference = item at h
  cases h with
  | scope _ => cases hitem
  | definition _ => cases hitem
  | importStmt _ => cases hitem
  | @reference named origin hne hnames horigin =>
    refine ⟨⟨origin, ?_, horigin.2⟩, ?_, ?_⟩
    · have hnone : named.filter (fun l => l.kind = .refToOrigin) = [] := by
        rw [List.filter_eq_nil_iff]
        intro l hl
        simpa using (hnames l hl).kind_cases.1
      rw [List.filter_append, hnone]
      rfl
    · obtain ⟨l, hl⟩ := List.exists_mem_of_ne_nil named hne
      exact ⟨l, List.mem_append_left _ hl, (hnames l hl).kind_cases.1⟩
    · intro l hl hkind
      obtain hnamed | hlast := List.mem_append.1 hl
      · exact (hnames l hnamed).kind_cases.2
      · rw [List.mem_singleton.1 hlast] at hkind
        exact absurd rfl hkind

/-! ## §3. The shape. -/

/-- The shape of a map: which links leave a node of which sort, and where they lead. -/
structure Shaped (g : ScopeMap) : Prop where
  /-- The nodes are numbered without gaps. -/
  numbered : ∀ i, (g.item? i).isSome = true ↔ i < g.nodes.size
  rootItem : g.item? root = some .scope
  rootLinks : g.links root = []
  /-- Links lead from younger to older nodes. -/
  downward : ∀ i l, (i, l) ∈ g.edges → l.target < i ∧ i < g.nodes.size
  /-- There is one link at most from a node to another. -/
  single : ∀ i, ((g.links i).map (·.target)).Nodup
  scopes : ∀ i, i ≠ root → g.item? i = some .scope →
    ∃ p, g.links i = [⟨p, .scopeToScope⟩] ∧ g.item? p = some .scope
  definitions : ∀ i sort, g.item? i = some (.definition sort) →
    ∃ p, g.links i = [⟨p, .defToScope⟩] ∧ g.item? p = some .scope
  imports : ∀ i statement, g.item? i = some (.importStmt statement) →
    ∃ p, g.links i = [⟨p, .importToScope⟩] ∧ g.item? p = some .scope
  /-- A reference has one link to the scope it stands in and at least one other, each of them to a
  definition or to an import. -/
  references : ∀ i, g.item? i = some .reference →
    (∃ origin, (g.links i).filter (fun l => l.kind = .refToOrigin) = [⟨origin, .refToOrigin⟩] ∧
      g.item? origin = some .scope) ∧
    (∃ l ∈ g.links i, l.kind ≠ .refToOrigin) ∧
    ∀ l ∈ g.links i, l.kind ≠ .refToOrigin →
      (l.kind = .refToDef ∧ ∃ sort, g.item? l.target = some (.definition sort)) ∨
      (l.kind = .refToImport ∧ ∃ statement, g.item? l.target = some (.importStmt statement))

section Wired

variable {g : ScopeMap} (wired : g.Wired) {i : Nat}
include wired

/-- What is not a scope is not the first node. -/
theorem Wired.ne_root {item : ScopeItem} (hitem : g.item? i = some item) (hscope : item ≠ .scope) :
    i ≠ root := by
  rintro rfl
  rw [wired.rootItem] at hitem
  exact hscope (Option.some.inj hitem).symm

/-- A node with a link is attached to older ones. -/
theorem Wired.attached_of_link {l : Link} (hl : l ∈ g.links i) :
    ∃ item, g.item? i = some item ∧ g.Attached i item (g.links i) := by
  obtain ⟨item, hitem⟩ := Option.isSome_iff_exists.1 ((g.item?_isSome_iff i).2 (lt_size_of_link hl))
  have hroot : i ≠ root := by
    rintro rfl
    rw [wired.rootLinks] at hl
    cases hl
  exact ⟨item, hitem, wired.attached i item hroot hitem⟩

theorem Wired.target_lt {l : Link} (hl : l ∈ g.links i) : l.target < i := by
  obtain ⟨item, -, hattached⟩ := wired.attached_of_link hl
  exact hattached.target_lt hl

theorem Wired.shaped (hdiffer : g.LinksDiffer) : g.Shaped where
  numbered := g.item?_isSome_iff
  rootItem := wired.rootItem
  rootLinks := wired.rootLinks
  downward := by
    intro i l hl
    rw [mem_edges] at hl
    exact ⟨wired.target_lt hl, lt_size_of_link hl⟩
  single := hdiffer
  scopes := by
    intro i hi hitem
    have hattached := wired.attached i _ hi hitem
    generalize g.links i = links at hattached ⊢
    cases hattached with
    | scope hp => exact ⟨_, rfl, hp.2⟩
  definitions := by
    intro i sort hitem
    have hattached := wired.attached i _ (wired.ne_root hitem (by simp)) hitem
    generalize g.links i = links at hattached ⊢
    cases hattached with
    | definition hp => exact ⟨_, rfl, hp.2⟩
  imports := by
    intro i statement hitem
    have hattached := wired.attached i _ (wired.ne_root hitem (by simp)) hitem
    generalize g.links i = links at hattached ⊢
    cases hattached with
    | importStmt hp => exact ⟨_, rfl, hp.2⟩
  references := by
    intro i hitem
    exact (wired.attached i _ (wired.ne_root hitem (by simp)) hitem).reference_links

end Wired

/-- **The shape is kept.**  A map has its shape after any row of insertions, of which some may fail
and leave something behind. -/
theorem shaped_of_insertions {source : SourceRange} {start : ScopeMap}
    (hstart : empty source = .ok start) (news : List Insertion) :
    (news.foldl (fun g new => (g.insert new).2) start).Shaped := by
  have hreach : Reachable (fun _ => True) source
      (news.foldl (fun g new => (g.insert new).2) start) :=
    (Reachable.start hstart).insertAll news fun _ _ => trivial
  exact (wired_of_reachable hreach).shaped (linksDiffer_of_reachable hreach)

/-- Insertions of every sort.  The third one fails, since its rows are empty, and leaves a scope
behind. -/
def mixedInsertions : List Insertion :=
  [.definition .inPlace (.ofRows 1 1) "x" (some "class"), .scope (.ofRows 2 6),
    .scope (.ofRows 5 3), .definition .hoisted (.ofRows 3 3) "y" none,
    .definition .global (.ofRows 4 4) "z" none, .importStmt (.ofRows 4 4) { names := ["x"] },
    .reference (.ofRows 5 5) "x"]

/-- The reference gets links to the definition, to the import and to its scope, and none to the scope
that was left behind. -/
theorem shaped_of_insertions_mixed :
    let start : ScopeMap :=
      { nodes := #[{ range := .ofRows 0 9, item := .scope }], placed := [(.ofRows 0 9, root)] }
    let run := fun (news : List Insertion) => news.foldl (fun g new => (g.insert new).2) start
    empty (.ofRows 0 9) = .ok start ∧
      ((run (mixedInsertions.take 2)).insert (.scope (.ofRows 5 3))).1 = .error .emptyInterval ∧
      (run mixedInsertions).edges = [(1, ⟨0, .defToScope⟩), (2, ⟨0, .scopeToScope⟩),
        (3, ⟨0, .scopeToScope⟩), (4, ⟨0, .defToScope⟩), (5, ⟨0, .defToScope⟩),
        (6, ⟨2, .importToScope⟩), (7, ⟨1, .refToDef⟩), (7, ⟨6, .refToImport⟩),
        (7, ⟨2, .refToOrigin⟩)] ∧
      (run mixedInsertions).Shaped := by
  intro start run
  have hstart : empty (.ofRows 0 9) = .ok start := rfl
  -- the reference comes last, and is looked up from the scope in rows 2 to 6
  have hmeasure : (SourceRange.ofRows 5 5).rows.measure = .ok () := by decide +kernel
  have hat : (run (mixedInsertions.take 6)).scopeAt (.ofRows 5 5) = 2 := by decide +kernel
  have hchain : (run (mixedInsertions.take 6)).outward 2 = [2, 0] := by decide +kernel
  have hknown : (((run (mixedInsertions.take 6)).definitionsOf [2, 0] "x").isEmpty
      && ((run (mixedInsertions.take 6)).importsOf [2, 0] "x").isEmpty) = false := by decide +kernel
  have hedges : ((run (mixedInsertions.take 6)).push {
      range := .ofRows 5 5, name := "x", item := .reference
      links := (run (mixedInsertions.take 6)).referenceLinks [2, 0] "x" 2 }).edges =
      [(1, ⟨0, .defToScope⟩), (2, ⟨0, .scopeToScope⟩), (3, ⟨0, .scopeToScope⟩),
        (4, ⟨0, .defToScope⟩), (5, ⟨0, .defToScope⟩), (6, ⟨2, .importToScope⟩),
        (7, ⟨1, .refToDef⟩), (7, ⟨6, .refToImport⟩), (7, ⟨2, .refToOrigin⟩)] := by decide +kernel
  have hsplit : mixedInsertions = mixedInsertions.take 6 ++ [.reference (.ofRows 5 5) "x"] := rfl
  have hlast : run mixedInsertions =
      ((run (mixedInsertions.take 6)).insert (.reference (.ofRows 5 5) "x")).2 :=
    (congrArg run hsplit).trans (List.foldl_concat _ _ _ _)
  refine ⟨hstart, by decide +kernel, ?_, shaped_of_insertions hstart mixedInsertions⟩
  rw [hlast, insert_known hmeasure hat hchain hknown, hedges]

end CodeAtlas.ScopeMap

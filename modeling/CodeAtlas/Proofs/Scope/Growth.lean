import CodeAtlas.Scope.Insert
import CodeAtlas.Scope.Query
import CodeAtlas.Proofs.Scope.Intervals

/-!
# How scope maps grow

A scope map begins with the scope of the whole source and grows by insertions, each of which leaves
it as it is or adds one node at its end.  The new node is wired by its sort: a scope, a definition
or an import by one link to an older scope, a reference by links to older definitions and imports
and one more to the older scope that it stands in.  The old nodes keep their links, so the wiring
holds in every map that can be reached.

Main results:
  * `ScopeMap.insert_step`: what an insertion does, whether it fails or not;
  * `ScopeMap.wired_of_reachable`: the wiring of every map;
  * `ScopeMap.outward_sorted`: the way outward leads from younger to older nodes.
-/

namespace CodeAtlas

/-- The insertion gives names a meaning, or a place to have one: it is no reference. -/
def Insertion.Binds : Insertion → Prop
  | .scope _ | .importStmt _ _ | .definition _ _ _ _ => True
  | .reference _ _ => False

namespace ScopeMap

/-! ## §1. Adding a node. -/

theorem item?_of_node {g : ScopeMap} {i : Nat} {node : ScopeEntry} (h : g.nodes[i]? = some node) :
    g.item? i = some node.item := by
  rw [item?, h]
  rfl

theorem lt_size_of_item? {g : ScopeMap} {i : Nat} {item : ScopeItem} (h : g.item? i = some item) :
    i < g.nodes.size := by
  unfold item? at h
  obtain ⟨node, hnode, -⟩ := Option.map_eq_some_iff.1 h
  exact (Array.getElem?_eq_some_iff.1 hnode).1

section Push

variable {g grown : ScopeMap} {node : ScopeEntry}

theorem item?_push (h : grown.nodes = g.nodes.push node) (i : Nat) :
    grown.item? i = if i = g.nodes.size then some node.item else g.item? i := by
  unfold item?
  rw [h, Array.getElem?_push]
  split <;> rfl

theorem links_push (h : grown.nodes = g.nodes.push node) (i : Nat) :
    grown.links i = if i = g.nodes.size then node.links else g.links i := by
  unfold links
  rw [h, Array.getElem?_push]
  split <;> rfl

/-- Old nodes stand for what they stood for. -/
theorem item?_kept (h : grown.nodes = g.nodes.push node) {i : Nat} {item : ScopeItem}
    (hitem : g.item? i = some item) : grown.item? i = some item := by
  have := lt_size_of_item? hitem
  rw [item?_push h, if_neg (by omega), hitem]

end Push

/-! ## §2. Wiring. -/

/-- Node `p` is a scope that is older than node `i`. -/
def OlderScope (g : ScopeMap) (i p : Nat) : Prop :=
  p < i ∧ g.item? p = some .scope

/-- The link says what a reference means: a definition or an import that is older than node `i`. -/
inductive Names (g : ScopeMap) (i : Nat) : Link → Prop
  | definition {d : Nat} {sort : DefSort} :
    d < i → g.item? d = some (.definition sort) → g.Names i ⟨d, .refToDef⟩
  | importStmt {m : Nat} {statement : ImportStmt} :
    m < i → g.item? m = some (.importStmt statement) → g.Names i ⟨m, .refToImport⟩

/-- The links with which node `i` is attached, by what it stands for. -/
inductive Attached (g : ScopeMap) (i : Nat) : ScopeItem → List Link → Prop
  | scope {p : Nat} : g.OlderScope i p → g.Attached i .scope [⟨p, .scopeToScope⟩]
  | definition {sort : DefSort} {p : Nat} :
    g.OlderScope i p → g.Attached i (.definition sort) [⟨p, .defToScope⟩]
  | importStmt {statement : ImportStmt} {p : Nat} :
    g.OlderScope i p → g.Attached i (.importStmt statement) [⟨p, .importToScope⟩]
  | reference {named : List Link} {origin : Nat} :
    named ≠ [] → (∀ l ∈ named, g.Names i l) → g.OlderScope i origin →
    g.Attached i .reference (named ++ [⟨origin, .refToOrigin⟩])

/-- Every node but the first is attached to older ones, and what is placed by its rows are scopes,
from the oldest on. -/
structure Wired (g : ScopeMap) : Prop where
  rootItem : g.item? root = some .scope
  rootLinks : g.links root = []
  attached : ∀ i item, i ≠ root → g.item? i = some item → g.Attached i item (g.links i)
  placed : ∀ e ∈ g.placed, g.item? e.2 = some .scope
  placedInOrder : g.placed.Pairwise fun a b => a.2 < b.2

/-- A node stays attached when there are more nodes. -/
theorem Attached.mono {g grown : ScopeMap}
    (h : ∀ i item, g.item? i = some item → grown.item? i = some item)
    {i : Nat} {item : ScopeItem} {links : List Link} (hattached : g.Attached i item links) :
    grown.Attached i item links := by
  have hscope : ∀ p, g.OlderScope i p → grown.OlderScope i p := fun p hp => ⟨hp.1, h p _ hp.2⟩
  cases hattached with
  | scope hp => exact .scope (hscope _ hp)
  | definition hp => exact .definition (hscope _ hp)
  | importStmt hp => exact .importStmt (hscope _ hp)
  | reference hne hnames horigin =>
    refine .reference hne (fun l hl => ?_) (hscope _ horigin)
    cases hnames l hl with
    | definition hlt hitem => exact .definition hlt (h _ _ hitem)
    | importStmt hlt hitem => exact .importStmt hlt (h _ _ hitem)

/-- An attached node more, which is placed only if it is a scope. -/
theorem Wired.extend {g grown : ScopeMap} {node : ScopeEntry} (wired : g.Wired)
    (hnode : g.Attached g.nodes.size node.item node.links)
    (hnodes : grown.nodes = g.nodes.push node)
    (hplaced : grown.placed = g.placed ∨
      node.item = .scope ∧ grown.placed = g.placed ++ [(node.range, g.nodes.size)]) :
    grown.Wired where
  rootItem := item?_kept hnodes wired.rootItem
  rootLinks := by
    have := lt_size_of_item? wired.rootItem
    rw [links_push hnodes, if_neg (by omega), wired.rootLinks]
  attached := by
    intro i item hi hitem
    rw [item?_push hnodes] at hitem
    rw [links_push hnodes]
    -- the new node was attached in the old map, and the old nodes are where they were
    by_cases hnew : i = g.nodes.size
    · rw [if_pos hnew] at hitem ⊢
      cases hitem
      rw [hnew]
      exact hnode.mono fun _ _ => item?_kept hnodes
    · rw [if_neg hnew] at hitem ⊢
      exact (wired.attached i item hi hitem).mono fun _ _ => item?_kept hnodes
  placed := by
    intro e he
    obtain hsame | ⟨hscope, hmore⟩ := hplaced
    · rw [hsame] at he
      exact item?_kept hnodes (wired.placed e he)
    · rw [hmore, List.mem_append, List.mem_singleton] at he
      obtain hold | rfl := he
      · exact item?_kept hnodes (wired.placed e hold)
      · rw [item?_push hnodes, if_pos rfl, hscope]
  placedInOrder := by
    obtain hsame | ⟨-, hmore⟩ := hplaced
    · rw [hsame]
      exact wired.placedInOrder
    · -- what was placed before is a node of the old map, so the new number is larger
      rw [hmore, List.pairwise_append]
      refine ⟨wired.placedInOrder, List.pairwise_singleton _ _, ?_⟩
      intro a ha b hb
      rw [List.mem_singleton.1 hb]
      exact lt_size_of_item? (wired.placed a ha)

theorem Wired.olderScope_root {g : ScopeMap} (wired : g.Wired) :
    g.OlderScope g.nodes.size root :=
  ⟨lt_size_of_item? wired.rootItem, wired.rootItem⟩

/-- The scope around a range is one of the scopes of the map. -/
theorem Wired.olderScope_scopeAt {g : ScopeMap} (wired : g.Wired) (range : SourceRange) :
    g.OlderScope g.nodes.size (g.scopeAt range) := by
  have hscope : g.item? (g.scopeAt range) = some .scope := by
    unfold scopeAt
    cases hfound : g.placed.enclosing? range with
    | none => exact wired.rootItem
    | some i =>
      obtain ⟨found, hmem, -⟩ := RowStore.enclosing?_some hfound
      exact wired.placed _ hmem
  exact ⟨lt_size_of_item? hscope, hscope⟩

/-- So is the scope around one of the scopes. -/
theorem Wired.olderScope_around? {g : ScopeMap} (wired : g.Wired) {i p : Nat}
    (h : g.around? i = some p) : g.OlderScope i p := by
  unfold around? at h
  by_cases hitem : g.item? i = some .scope
  · rw [if_pos hitem] at h
    unfold above? at h
    by_cases hi : i = root
    · rw [hi, wired.rootLinks] at h
      cases h
    · generalize hlinks : g.links i = links at h
      have hattached := wired.attached i _ hi hitem
      rw [hlinks] at hattached
      cases hattached with
      | scope hp =>
        cases h
        exact hp
  · rw [if_neg hitem] at h
    cases h

/-! ## §3. What a name means. -/

theorem defines_iff {g : ScopeMap} {name : String} {i : Nat} :
    g.defines name i = true ↔
      ∃ node sort, g.nodes[i]? = some node ∧ node.item = .definition sort ∧ node.name = name := by
  unfold defines
  constructor
  · intro h
    split at h
    case h_1 node range sort known links heq =>
      exact ⟨_, sort, heq, rfl, (of_decide_eq_true h).symm⟩
    case h_2 => cases h
  · rintro ⟨⟨range, item, known, links⟩, sort, hnode, hitem, hname⟩
    dsimp only at hitem hname
    subst hitem
    rw [hnode]
    exact decide_eq_true hname.symm

theorem importsName_iff {g : ScopeMap} {name : String} {i : Nat} :
    g.importsName name i = true ↔
      ∃ node statement, g.nodes[i]? = some node ∧ node.item = .importStmt statement ∧
        name ∈ statement.names := by
  unfold importsName
  constructor
  · intro h
    split at h
    case h_1 node range statement known links heq =>
      exact ⟨_, statement, heq, rfl, List.contains_iff_mem.1 h⟩
    case h_2 => cases h
  · rintro ⟨⟨range, item, known, links⟩, statement, hnode, hitem, hname⟩
    dsimp only at hitem
    subst hitem
    rw [hnode]
    exact List.contains_iff_mem.2 hname

theorem mem_sources {g : ScopeMap} {kind : LinkKind} {i target : Nat} :
    i ∈ g.sources kind target ↔ i < g.nodes.size ∧ ⟨target, kind⟩ ∈ g.links i := by
  unfold sources hasLink
  rw [List.mem_filter, List.mem_range, List.contains_iff_mem]

theorem mem_scopes {g : ScopeMap} {s : Nat} : s ∈ g.scopes ↔ g.item? s = some .scope := by
  unfold scopes
  rw [List.mem_filter, List.mem_range, decide_eq_true_eq]
  exact ⟨And.right, fun hs => ⟨lt_size_of_item? hs, hs⟩⟩

theorem mem_definitionsOf {g : ScopeMap} {chain : List Nat} {name : String} {d : Nat} :
    d ∈ g.definitionsOf chain name ↔
      ∃ s ∈ chain, (g.sources .defToScope s).find? (g.defines name) = some d :=
  List.mem_filterMap

theorem mem_importsOf {g : ScopeMap} {chain : List Nat} {name : String} {m : Nat} :
    m ∈ g.importsOf chain name ↔
      ∃ s ∈ chain, m ∈ g.sources .importToScope s ∧ g.importsName name m = true := by
  unfold importsOf
  rw [List.mem_flatMap]
  simp only [List.mem_filter]

theorem item?_of_mem_definitionsOf {g : ScopeMap} {chain : List Nat} {name : String} {d : Nat}
    (h : d ∈ g.definitionsOf chain name) : ∃ sort, g.item? d = some (.definition sort) := by
  obtain ⟨s, -, hfind⟩ := mem_definitionsOf.1 h
  obtain ⟨node, sort, hnode, hitem, -⟩ := defines_iff.1 (List.find?_some hfind)
  exact ⟨sort, hitem ▸ item?_of_node hnode⟩

theorem item?_of_mem_importsOf {g : ScopeMap} {chain : List Nat} {name : String} {m : Nat}
    (h : m ∈ g.importsOf chain name) : ∃ statement, g.item? m = some (.importStmt statement) := by
  obtain ⟨s, -, -, himports⟩ := mem_importsOf.1 h
  obtain ⟨node, statement, hnode, hitem, -⟩ := importsName_iff.1 himports
  exact ⟨statement, hitem ▸ item?_of_node hnode⟩

/-- What is found for a name are definitions and imports of the map. -/
theorem names_of_found {g : ScopeMap} {chain : List Nat} {name : String} {l : Link}
    (h : l ∈ (g.definitionsOf chain name).map (⟨·, .refToDef⟩)
      ++ (g.importsOf chain name).map (⟨·, .refToImport⟩)) : g.Names g.nodes.size l := by
  obtain h | h := List.mem_append.1 h
  · obtain ⟨d, hd, rfl⟩ := List.mem_map.1 h
    obtain ⟨sort, hitem⟩ := item?_of_mem_definitionsOf hd
    exact .definition (lt_size_of_item? hitem) hitem
  · obtain ⟨m, hm, rfl⟩ := List.mem_map.1 h
    obtain ⟨statement, hitem⟩ := item?_of_mem_importsOf hm
    exact .importStmt (lt_size_of_item? hitem) hitem

/-! ## §4. What an insertion does. -/

/-- An insertion by rows that cannot be measured changes nothing; any other is made. -/
theorem insert_of_sought {g : ScopeMap} {new : Insertion} {range : SourceRange}
    (h : new.sought = some range) :
    g.insert new = match range.rows.measure with
      | .error e => (.error e, g)
      | .ok _ => g.insertMeasured new := by
  unfold insert
  rw [h, Option.mapM_some]
  cases range.rows.measure <;> rfl

theorem insert_of_not_sought {g : ScopeMap} {new : Insertion} (h : new.sought = none) :
    g.insert new = g.insertMeasured new := by
  unfold insert
  rw [h]
  rfl

theorem insert_cases (g : ScopeMap) (new : Insertion) :
    (g.insert new).2 = g ∨ g.insert new = g.insertMeasured new := by
  cases h : new.sought with
  | none => exact Or.inr (insert_of_not_sought h)
  | some range =>
    rw [insert_of_sought h]
    cases range.rows.measure with
    | error e => exact Or.inl rfl
    | ok _ => exact Or.inr rfl

/-- A scope with rows in it is added and placed. -/
theorem insert_scope {g : ScopeMap} {range : SourceRange} (hmeasure : range.rows.measure = .ok ())
    (hempty : range.rows.isEmpty = false) :
    g.insert (.scope range) = (.ok (),
      { g.pushScope range with placed := g.placed ++ [(range, g.nodes.size)] }) := by
  have hadd : g.placed.add range g.nodes.size = .ok (g.placed ++ [(range, g.nodes.size)]) := by
    unfold RowStore.add
    rw [hmeasure, hempty]
    rfl
  rw [insert_of_sought rfl, hmeasure]
  show g.addScope range = _
  unfold addScope
  rw [hadd]

/-- A reference whose rows can be measured goes in. -/
theorem insertAll_reference {g : ScopeMap} {range : SourceRange} {name : String}
    (hmeasure : range.rows.measure = .ok ()) :
    g.insertAll [.reference range name] = .ok (g.refer range name) := by
  rw [insertAll, insert_of_sought rfl, hmeasure]
  rfl

/-- A scope is added in any case, and placed if it is not empty. -/
theorem addScope_cases (g : ScopeMap) (range : SourceRange) :
    (g.addScope range).2 = g.pushScope range ∨
      range.rows.isEmpty = false ∧ (g.addScope range).2 =
        { g.pushScope range with placed := g.placed ++ [(range, g.nodes.size)] } := by
  unfold addScope RowStore.add
  cases range.rows.measure with
  | error e => exact Or.inl rfl
  | ok _ =>
    cases range.rows.isEmpty with
    | true => exact Or.inl rfl
    | false => exact Or.inr ⟨rfl, rfl⟩

/-- The node that an insertion adds if it adds one. -/
def nodeOf (g : ScopeMap) : Insertion → ScopeEntry
  | .scope range => { range, item := .scope, links := [⟨g.scopeAt range, .scopeToScope⟩] }
  | .importStmt range statement =>
    { range, item := .importStmt statement, links := [⟨g.scopeAt range, .importToScope⟩] }
  | .definition .global range name _ =>
    { range, name, item := .definition .unrecorded, links := [⟨root, .defToScope⟩] }
  | .definition .hoisted range name _ =>
    { range, name, item := .definition .unrecorded
      links := [⟨(g.around? (g.scopeAt range)).getD (g.scopeAt range), .defToScope⟩] }
  | .definition .inPlace range name sort =>
    { range, name, item := .definition (.recorded sort)
      links := [⟨g.scopeAt range, .defToScope⟩] }
  | .reference range name =>
    let chain := g.outward (g.scopeAt range)
    { range, name, item := .reference
      links := (g.definitionsOf chain name).map (⟨·, .refToDef⟩)
        ++ (g.importsOf chain name).map (⟨·, .refToImport⟩) ++ [⟨g.scopeAt range, .refToOrigin⟩] }

theorem insertMeasured_nodes (g : ScopeMap) (new : Insertion) :
    (g.insertMeasured new).2 = g ∨ (g.insertMeasured new).2.nodes = g.nodes.push (g.nodeOf new) := by
  cases new with
  | scope range =>
    refine Or.inr ?_
    -- the node is there whether its rows are empty or not
    show (g.addScope range).2.nodes = _
    obtain hpushed | ⟨-, hplaced⟩ := addScope_cases g range
    · rw [hpushed]
      rfl
    · rw [hplaced]
      rfl
  | importStmt range statement => exact Or.inr rfl
  | definition scoping range name sort =>
    cases scoping with
    | global => exact Or.inr rfl
    | hoisted => exact Or.inr rfl
    | inPlace => exact Or.inr rfl
  | reference range name =>
    show g.refer range name = g ∨ (g.refer range name).nodes = _
    unfold refer
    dsimp only
    split
    · exact Or.inl rfl
    · exact Or.inr rfl

/-- An insertion, whether it fails or not, leaves the map as it is or adds its node. -/
theorem insert_nodes (g : ScopeMap) (new : Insertion) :
    (g.insert new).2 = g ∨ (g.insert new).2.nodes = g.nodes.push (g.nodeOf new) := by
  obtain hsame | hinsert := insert_cases g new
  · exact Or.inl hsame
  · rw [hinsert]
    exact insertMeasured_nodes g new

/-- **What an insertion does.**  The map stays as it is, or it has one node more, which is attached
to the older ones; a scope may also be placed by its rows. -/
theorem insert_step {g : ScopeMap} (wired : g.Wired) (new : Insertion) :
    (g.insert new).2 = g ∨ ∃ node, g.Attached g.nodes.size node.item node.links ∧
      (g.insert new).2.nodes = g.nodes.push node ∧
      ((g.insert new).2.placed = g.placed ∨
        (new = .scope node.range ∧ node.range.rows.isEmpty = false) ∧ node.item = .scope ∧
        (g.insert new).2.placed = g.placed ++ [(node.range, g.nodes.size)]) := by
  obtain hsame | hinsert := insert_cases g new
  · exact Or.inl hsame
  rw [hinsert]
  have hat := wired.olderScope_scopeAt
  cases new with
  | scope range =>
    refine Or.inr ⟨{ range, item := .scope, links := [⟨g.scopeAt range, .scopeToScope⟩] },
      .scope (hat range), ?_⟩
    show (g.addScope range).2.nodes = _ ∧ ((g.addScope range).2.placed = _ ∨ _ ∧ _ ∧
      (g.addScope range).2.placed = _)
    obtain hpushed | ⟨hempty, hplaced⟩ := addScope_cases g range
    · rw [hpushed]
      exact ⟨rfl, Or.inl rfl⟩
    · rw [hplaced]
      exact ⟨rfl, Or.inr ⟨⟨rfl, hempty⟩, rfl, rfl⟩⟩
  | importStmt range statement =>
    exact Or.inr ⟨{
      range, item := .importStmt statement, links := [⟨g.scopeAt range, .importToScope⟩] },
      .importStmt (hat range), rfl, Or.inl rfl⟩
  | definition scoping range name sort =>
    cases scoping with
    | global =>
      exact Or.inr ⟨{
        range, name, item := .definition .unrecorded, links := [⟨root, .defToScope⟩] },
        .definition wired.olderScope_root, rfl, Or.inl rfl⟩
    | hoisted =>
      refine Or.inr ⟨{
        range, name, item := .definition .unrecorded
        links := [⟨(g.around? (g.scopeAt range)).getD (g.scopeAt range), .defToScope⟩] },
        .definition ?_, rfl, Or.inl rfl⟩
      -- one scope further out, or the scope itself where there is none
      cases haround : g.around? (g.scopeAt range) with
      | none => exact hat range
      | some p =>
        have hp := wired.olderScope_around? haround
        exact ⟨Nat.lt_trans hp.1 (hat range).1, hp.2⟩
    | inPlace =>
      exact Or.inr ⟨{
        range, name, item := .definition (.recorded sort)
        links := [⟨g.scopeAt range, .defToScope⟩] }, .definition (hat range), rfl, Or.inl rfl⟩
  | reference range name =>
    show g.refer range name = g ∨ ∃ node, _ ∧ (g.refer range name).nodes = _ ∧
      ((g.refer range name).placed = _ ∨ _)
    by_cases hnone : (g.definitionsOf (g.outward (g.scopeAt range)) name).isEmpty
        && (g.importsOf (g.outward (g.scopeAt range)) name).isEmpty
    · exact Or.inl (if_pos hnone)
    · have hrefer : g.refer range name = g.push _ := if_neg hnone
      refine Or.inr ⟨_, .reference ?_ (fun l hl => names_of_found hl) (hat range),
        congrArg nodes hrefer, Or.inl (by rw [hrefer]; rfl)⟩
      -- a reference is added only if something was found for its name
      intro hnil
      rw [List.append_eq_nil_iff, List.map_eq_nil_iff, List.map_eq_nil_iff] at hnil
      rw [hnil.1, hnil.2] at hnone
      exact hnone rfl

theorem Wired.insert {g : ScopeMap} (wired : g.Wired) (new : Insertion) :
    (g.insert new).2.Wired := by
  obtain hsame | ⟨node, hnode, hnodes, hplaced⟩ := insert_step wired new
  · rw [hsame]
    exact wired
  · exact wired.extend hnode hnodes (hplaced.imp_right And.right)

/-! ## §5. Every map. -/

/-- The maps that insertions of an allowed sort can make, beginning with the scope of the whole
source.  An insertion that fails counts with what it leaves behind. -/
inductive Reachable (allowed : Insertion → Prop) (source : SourceRange) : ScopeMap → Prop
  | start {g : ScopeMap} : empty source = .ok g → Reachable allowed source g
  | insert {g : ScopeMap} (new : Insertion) :
    Reachable allowed source g → allowed new → Reachable allowed source (g.insert new).2

theorem Reachable.insertAll {allowed : Insertion → Prop} {source : SourceRange} {g : ScopeMap}
    (h : Reachable allowed source g) (news : List Insertion) (hnews : ∀ new ∈ news, allowed new) :
    Reachable allowed source (news.foldl (fun g new => (g.insert new).2) g) := by
  induction news generalizing g with
  | nil => exact h
  | cons new rest ih =>
    exact ih (h.insert new (hnews new List.mem_cons_self)) fun other hother =>
      hnews other (List.mem_cons_of_mem _ hother)

/-- The map with the scope of the whole source, whose rows must be there. -/
theorem empty_ok {source : SourceRange} {g : ScopeMap} (h : empty source = .ok g) :
    source.rows.isEmpty = false ∧
      g = { nodes := #[{ range := source, item := .scope }], placed := [(source, root)] } := by
  unfold empty RowStore.add at h
  cases hmeasure : source.rows.measure with
  | error e =>
    rw [hmeasure] at h
    cases h
  | ok _ =>
    rw [hmeasure] at h
    cases hempty : source.rows.isEmpty with
    | true =>
      rw [hempty] at h
      cases h
    | false =>
      rw [hempty] at h
      cases h
      exact ⟨rfl, rfl⟩

theorem empty_of_rows {source : SourceRange} (hmeasure : source.rows.measure = .ok ())
    (hempty : source.rows.isEmpty = false) :
    empty source =
      .ok { nodes := #[{ range := source, item := .scope }], placed := [(source, root)] } := by
  unfold empty RowStore.add
  rw [hmeasure, hempty]
  rfl

theorem wired_empty {source : SourceRange} {g : ScopeMap} (h : empty source = .ok g) :
    g.Wired := by
  obtain ⟨-, rfl⟩ := empty_ok h
  refine ⟨rfl, rfl, ?_, ?_, List.pairwise_singleton _ _⟩
  · intro i item hi hitem
    have hlt : i < 1 := lt_size_of_item? hitem
    exact absurd (show i = root by unfold root; omega) hi
  · intro e he
    rw [List.mem_singleton.1 he]
    rfl

/-- **The wiring.**  In every map all nodes but the first are attached to older ones. -/
theorem wired_of_reachable {allowed : Insertion → Prop} {source : SourceRange} {g : ScopeMap}
    (h : Reachable allowed source g) : g.Wired := by
  induction h with
  | start h => exact wired_empty h
  | insert new _ _ ih => exact ih.insert new

/-- The range of a scope is the one with which it was placed, if each scope was placed once. -/
theorem rangeOf?_eq_some_iff {g : ScopeMap} {i : Nat} {range : SourceRange}
    (honce : ∀ a ∈ g.placed, ∀ b ∈ g.placed, a.2 = b.2 → a = b) :
    g.rangeOf? i = some range ↔ (range, i) ∈ g.placed := by
  unfold rangeOf?
  rw [Option.map_eq_some_iff]
  constructor
  · rintro ⟨e, hfind, rfl⟩
    have hi : e.2 = i := by simpa using List.find?_some hfind
    rw [← hi]
    exact List.mem_of_find?_eq_some hfind
  · intro hmem
    cases hfind : g.placed.find? fun e => e.2 = i with
    | none => exact absurd (decide_eq_true rfl) (List.find?_eq_none.1 hfind _ hmem)
    | some e =>
      have hi : e.2 = i := by simpa using List.find?_some hfind
      have he := honce e (List.mem_of_find?_eq_some hfind) _ hmem hi
      exact ⟨e, rfl, by rw [he]⟩

/-- A question for the smallest scope is answered if the rows can be measured. -/
theorem smallestAround_of_measure (g : ScopeMap) {range : SourceRange}
    (h : range.rows.measure = .ok ()) :
    g.smallestAround range none = .ok (g.scopeAt range : Int) := by
  unfold smallestAround scopeAt
  rw [h]
  cases g.placed.enclosing? range <;> rfl

theorem smallestAround_ok {g : ScopeMap} {range : SourceRange} {id : Int}
    (h : g.smallestAround range none = .ok id) : id = g.scopeAt range := by
  cases hmeasure : range.rows.measure with
  | error e =>
    unfold smallestAround at h
    rw [hmeasure] at h
    cases h
  | ok _ => exact Except.ok.inj (h.symm.trans (smallestAround_of_measure g hmeasure))

/-! ## §6. The way outward. -/

theorem outward_of_none {g : ScopeMap} {i : Nat} (h : g.above? i = none) : g.outward i = [i] := by
  unfold outward
  rw [h]

theorem outward_of_some {g : ScopeMap} {i p : Nat} (h : g.above? i = some p) :
    g.outward i = i :: if p < i then g.outward p else [] := by
  conv => lhs; unfold outward
  rw [h]
  rfl

/-- The way outward leads from younger to older nodes. -/
theorem outward_sorted (g : ScopeMap) (i : Nat) :
    (g.outward i).Pairwise (· > ·) ∧ ∀ j ∈ g.outward i, j ≤ i := by
  induction i using Nat.strongRecOn with
  | ind i ih =>
    cases habove : g.above? i with
    | none =>
      rw [outward_of_none habove]
      exact ⟨List.pairwise_singleton _ _, fun j hj => Nat.le_of_eq (List.mem_singleton.1 hj)⟩
    | some p =>
      rw [outward_of_some habove]
      by_cases hlt : p < i
      · rw [if_pos hlt]
        obtain ⟨hsorted, hle⟩ := ih p hlt
        refine ⟨List.pairwise_cons.2 ⟨fun j hj => ?_, hsorted⟩, fun j hj => ?_⟩
        · have := hle j hj
          omega
        · obtain rfl | hj := List.mem_cons.1 hj
          · exact Nat.le_refl _
          · have := hle j hj
            omega
      · rw [if_neg hlt]
        exact ⟨List.pairwise_singleton _ _, fun j hj => Nat.le_of_eq (List.mem_singleton.1 hj)⟩

theorem outward_nodup (g : ScopeMap) (i : Nat) : (g.outward i).Nodup :=
  (outward_sorted g i).1.imp fun h => Nat.ne_of_gt h

end ScopeMap

end CodeAtlas

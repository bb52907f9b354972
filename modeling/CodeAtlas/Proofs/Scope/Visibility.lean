import CodeAtlas.Proofs.Scope.Readings
import CodeAtlas.Proofs.Scope.Shape

/-!
# What references see

A reference is linked to what its name means at the time when it is added.  In the map of a source,
scopes, imports and definitions are all there by then, and a further reference changes neither the
way outward from a scope nor what a name means in a scope.  So in the finished map a reference is
linked to all that its name means on the way outward from the scope it stands in, and to nothing
else.

Main results:
  * `ScopeMap.referenceLinks_push`: a reference more changes no meaning;
  * `ScopeMap.Settled.insert_reference`: one more reference leaves the others as they should be;
  * `ScopeMap.settled_of_scopeMap`: in the map of a source, references mean what they say.
-/

namespace CodeAtlas.ScopeMap

/-! ## §1. A reference more. -/

section Push

variable {g grown : ScopeMap} {node : ScopeEntry}

theorem links_of_size_le {g : ScopeMap} {i : Nat} (h : g.nodes.size ≤ i) : g.links i = [] := by
  unfold links
  rw [Array.getElem?_eq_none h]
  rfl

theorem nameOf_push (h : grown.nodes = g.nodes.push node) (i : Nat) :
    grown.nameOf i = if i = g.nodes.size then node.name else g.nameOf i := by
  unfold nameOf
  rw [h, Array.getElem?_push]
  split <;> rfl

/-- What leads to a node by links of a kind that the new node does not have. -/
theorem sources_push (h : grown.nodes = g.nodes.push node) {kind : LinkKind}
    (hkind : ∀ l ∈ node.links, l.kind ≠ kind) (target : Nat) :
    grown.sources kind target = g.sources kind target := by
  have hnew : grown.hasLink kind g.nodes.size target = false := by
    unfold hasLink
    rw [links_push h, if_pos rfl, List.contains_eq_mem, decide_eq_false_iff_not]
    intro hmem
    exact hkind _ hmem rfl
  have hold : ∀ i ∈ List.range g.nodes.size,
      grown.hasLink kind i target = g.hasLink kind i target := by
    intro i hi
    unfold hasLink
    rw [links_push h, if_neg (Nat.ne_of_lt (List.mem_range.1 hi))]
  unfold sources
  rw [h, Array.size_push, List.range_succ, List.filter_append, List.filter_congr hold,
    List.filter_cons_of_neg (by simp [hnew]), List.filter_nil, List.append_nil]

theorem outward_push (h : grown.nodes = g.nodes.push node)
    (hkind : ∀ l ∈ node.links, l.kind ≠ .scopeToScope) (i : Nat) :
    grown.outward i = g.outward i := by
  -- also the new node has no scope above it: in the old map because it is not there
  have habove : ∀ j, grown.above? j = g.above? j := by
    intro j
    unfold above?
    rw [links_push h]
    by_cases hj : j = g.nodes.size
    · have hnone : node.links.find? (fun l => l.kind = .scopeToScope) = none :=
        List.find?_eq_none.2 fun l hl => by simpa using hkind l hl
      rw [if_pos hj, hnone, links_of_size_le (Nat.le_of_eq hj.symm)]
      rfl
    · rw [if_neg hj]
  induction i using Nat.strongRecOn with
  | ind i ih =>
    cases hi : g.above? i with
    | none => rw [outward_of_none hi, outward_of_none ((habove i).trans hi)]
    | some p =>
      rw [outward_of_some hi, outward_of_some ((habove i).trans hi)]
      by_cases hlt : p < i
      · rw [if_pos hlt, if_pos hlt, ih p hlt]
      · rw [if_neg hlt, if_neg hlt]

variable (hnodes : grown.nodes = g.nodes.push node) (hitem : node.item = .reference)
  (hkinds : ∀ l ∈ node.links,
    l.kind ≠ .scopeToScope ∧ l.kind ≠ .defToScope ∧ l.kind ≠ .importToScope)
include hnodes hitem

theorem defines_push (name : String) : grown.defines name = g.defines name := by
  funext i
  unfold defines
  rw [hnodes, Array.getElem?_push]
  by_cases hi : i = g.nodes.size
  · rw [if_pos hi, hi, Array.getElem?_eq_none (Nat.le_refl _)]
    obtain ⟨range, item, known, links⟩ := node
    cases hitem
    rfl
  · rw [if_neg hi]

theorem importsName_push (name : String) : grown.importsName name = g.importsName name := by
  funext i
  unfold importsName
  rw [hnodes, Array.getElem?_push]
  by_cases hi : i = g.nodes.size
  · rw [if_pos hi, hi, Array.getElem?_eq_none (Nat.le_refl _)]
    obtain ⟨range, item, known, links⟩ := node
    cases hitem
    rfl
  · rw [if_neg hi]

include hkinds

/-- **A reference more changes no meaning.**  Another reference to a name in a scope would get the
same links. -/
theorem referenceLinks_push (chain : List Nat) (name : String) (origin : Nat) :
    grown.referenceLinks chain name origin = g.referenceLinks chain name origin := by
  have hdefs : grown.definitionsOf chain name = g.definitionsOf chain name := by
    unfold definitionsOf
    rw [defines_push hnodes hitem]
    simp only [sources_push hnodes fun l hl => (hkinds l hl).2.1]
  have himports : grown.importsOf chain name = g.importsOf chain name := by
    unfold importsOf
    rw [importsName_push hnodes hitem]
    simp only [sources_push hnodes fun l hl => (hkinds l hl).2.2]
  unfold referenceLinks
  rw [hdefs, himports]

end Push

/-! ## §2. References in the finished map. -/

/-- Each reference has the links that its name has in this map, seen from the scope it stands in. -/
def Settled (g : ScopeMap) : Prop :=
  ∀ x s, ⟨s, .refToOrigin⟩ ∈ g.links x →
    g.links x = g.referenceLinks (g.outward s) (g.nameOf x) s

/-- A reference is linked to definitions, to imports and to the scope that it stands in. -/
theorem kind_of_mem_referenceLinks {g : ScopeMap} {chain : List Nat} {name : String} {origin : Nat}
    {l : Link} (h : l ∈ g.referenceLinks chain name origin) :
    l.kind ≠ .scopeToScope ∧ l.kind ≠ .defToScope ∧ l.kind ≠ .importToScope := by
  obtain ⟨s, -, d, -, rfl⟩ | ⟨s, -, m, -, rfl⟩ | rfl := mem_referenceLinks.1 h
  all_goals simp

theorem origin_of_mem_referenceLinks {g : ScopeMap} {chain : List Nat} {name : String}
    {origin s : Nat} (h : ⟨s, .refToOrigin⟩ ∈ g.referenceLinks chain name origin) : s = origin := by
  obtain ⟨_, -, d, -, heq⟩ | ⟨_, -, m, -, heq⟩ | heq := mem_referenceLinks.1 h
  · cases heq
  · cases heq
  · exact (Link.mk.inj heq).1

/-- One more reference finds the map settled and leaves it settled. -/
theorem Settled.insert_reference {g : ScopeMap} (h : g.Settled) (range : SourceRange)
    (name : String) : (g.insert (.reference range name)).2.Settled := by
  obtain hsame | ⟨node, hnodes, ⟨hbinds, -⟩ | ⟨range', name', heq, hnode⟩⟩ :=
    insert_links g (.reference range name)
  · rw [hsame]
    exact h
  · exact hbinds.elim
  cases heq
  have hitem : node.item = .reference := by rw [hnode]
  have hlinks : node.links
      = g.referenceLinks (g.outward (g.scopeAt range)) name (g.scopeAt range) := by rw [hnode]
  have hkinds : ∀ l ∈ node.links,
      l.kind ≠ .scopeToScope ∧ l.kind ≠ .defToScope ∧ l.kind ≠ .importToScope := by
    intro l hl
    rw [hlinks] at hl
    exact kind_of_mem_referenceLinks hl
  -- what names mean is the same before and after, so both maps can be spoken of in the old one
  intro x s hx
  rw [referenceLinks_push hnodes hitem hkinds, outward_push hnodes fun l hl => (hkinds l hl).1,
    nameOf_push hnodes]
  rw [links_push hnodes] at hx ⊢
  by_cases hnew : x = g.nodes.size
  · rw [if_pos hnew] at hx ⊢
    rw [if_pos hnew, hlinks]
    rw [hlinks] at hx
    rw [origin_of_mem_referenceLinks hx, hnode]
  · rw [if_neg hnew] at hx ⊢
    rw [if_neg hnew]
    exact h x s hx

/-- A map without references is settled. -/
theorem settled_of_binds {source : SourceRange} {g : ScopeMap}
    (h : Reachable Insertion.Binds source g) : g.Settled := by
  -- no node has the link by which references are told, and so there is nothing to show for them
  suffices hnone : ∀ x, ∀ l ∈ g.links x, l.kind ≠ .refToOrigin from
    fun x s hx => absurd rfl (hnone x _ hx)
  induction h with
  | start hstart =>
    obtain ⟨-, rfl⟩ := empty_ok hstart
    intro x l hl
    -- the one node there is has no links
    cases x with
    | zero => cases hl
    | succ x => cases hl
  | @insert g new _ hnew ih =>
    intro x l hl
    obtain hsame | ⟨node, hnodes, ⟨-, link, hone, hkind⟩ | ⟨range, name, rfl, -⟩⟩ :=
      insert_links g new
    · rw [hsame] at hl
      exact ih x l hl
    · rw [links_push hnodes] at hl
      by_cases hx : x = g.nodes.size
      · rw [if_pos hx, hone, List.mem_singleton] at hl
        rw [hl]
        exact hkind
      · rw [if_neg hx] at hl
        exact ih x l hl
    · exact hnew.elim

/-- **References mean what they say.**  In the map of a source, each reference is linked to all that
its name means on the way outward from the scope it stands in. -/
theorem settled_of_scopeMap {r : Reading} {g : ScopeMap} (h : r.scopeMap = .ok g) : g.Settled := by
  obtain ⟨before, hbefore, hreferred⟩ := Reading.scopeMap_stages h
  refine Outcome.foldlM_rule (fun _ g => g.Settled) ?_ (settled_of_binds hbefore) hreferred
  intro _ range g grown hg hnext
  obtain ⟨name, -, hinsert⟩ := Outcome.bind_ok.1 hnext
  have hgrown := hg.insert_reference range name
  rw [insertAll] at hinsert
  split at hinsert
  · cases hinsert
  · rename_i next hnext
    rw [hnext] at hgrown
    cases hinsert
    exact hgrown

end CodeAtlas.ScopeMap

import CodeAtlas.Proofs.Scope.Shape
import Mathlib.Data.List.Nodup

/-!
# Lists of everything

Definitions, imports and references belong to a scope, each sort by a link of its own kind.  To list
all of one sort, the links that lead to each scope are looked through, one scope after the other.
Nothing is lost and nothing comes twice: what belongs to a scope has one link of this kind, whether
it was left in place, hoisted or made global, and no other node has one.

Main results:
  * `ScopeMap.Wired.home`: the one scope that a node belongs to;
  * `ScopeMap.Wired.sharesOut`: the scopes share out the nodes of each sort;
  * `ScopeMap.listed_exactly_once`: what is listed in every map.
-/

namespace CodeAtlas

/-! ## §1. Sharing out. -/

/-- The rows of the keys share out the numbers with a property: each of these stands in one of the
rows, and there once, and no other number does. -/
structure SharesOut (keys : List Nat) (row : Nat → List Nat) (P : Nat → Prop) : Prop where
  distinct : keys.Nodup
  only : ∀ k ∈ keys, ∀ i ∈ row k, P i
  one : ∀ i, P i → ∃! k, k ∈ keys ∧ i ∈ row k
  once : ∀ k ∈ keys, (row k).Nodup

section SharesOut

variable {keys : List Nat} {row : Nat → List Nat} {P : Nat → Prop} (h : SharesOut keys row P)
include h

/-- All rows together have the numbers with the property. -/
theorem SharesOut.mem_flatMap {i : Nat} : i ∈ keys.flatMap row ↔ P i := by
  rw [List.mem_flatMap]
  constructor
  · rintro ⟨k, hk, hi⟩
    exact h.only k hk i hi
  · intro hi
    obtain ⟨k, hk, -⟩ := h.one i hi
    exact ⟨k, hk⟩

/-- All rows together have nothing twice. -/
theorem SharesOut.nodup_flatMap : (keys.flatMap row).Nodup := by
  rw [List.nodup_flatMap]
  refine ⟨h.once, h.distinct.imp_of_mem fun {k l} hk hl hne => ?_⟩
  intro i hi hi'
  exact hne ((h.one i (h.only k hk i hi)).unique ⟨hk, hi⟩ ⟨hl, hi'⟩)

end SharesOut

/-! ## §2. What belongs to a scope. -/

/-- The sorts of nodes that belong to a scope. -/
inductive Belonging where
  | definition
  | importStmt
  | reference

namespace Belonging

/-- The kind of the link from a node to the scope that it belongs to. -/
def kind : Belonging → LinkKind
  | .definition => .defToScope
  | .importStmt => .importToScope
  | .reference => .refToOrigin

/-- Is the node of this sort? -/
def covers : Belonging → ScopeItem → Bool
  | .definition, .definition _ => true
  | .importStmt, .importStmt _ => true
  | .reference, .reference => true
  | _, _ => false

theorem covers_definition {item : ScopeItem} :
    covers .definition item = true ↔ ∃ sort, item = .definition sort := by
  cases item <;> simp [covers]

theorem covers_importStmt {item : ScopeItem} :
    covers .importStmt item = true ↔ ∃ statement, item = .importStmt statement := by
  cases item <;> simp [covers]

theorem covers_reference {item : ScopeItem} :
    covers .reference item = true ↔ item = .reference := by
  cases item <;> simp [covers]

end Belonging

namespace ScopeMap

variable {g : ScopeMap}

/-- Node `i` is of the sort. -/
def IsA (g : ScopeMap) (sort : Belonging) (i : Nat) : Prop :=
  ∃ item, g.item? i = some item ∧ sort.covers item = true

theorem isA_definition {i : Nat} :
    g.IsA .definition i ↔ ∃ sort, g.item? i = some (.definition sort) := by
  simp [IsA, Belonging.covers_definition]

theorem isA_importStmt {i : Nat} :
    g.IsA .importStmt i ↔ ∃ statement, g.item? i = some (.importStmt statement) := by
  simp [IsA, Belonging.covers_importStmt]

theorem isA_reference {i : Nat} : g.IsA .reference i ↔ g.item? i = some .reference := by
  simp [IsA, Belonging.covers_reference]

/-- The nodes of a sort, from the oldest on. -/
def nodesOf (g : ScopeMap) (sort : Belonging) : List ScopeEntry :=
  g.nodes.toList.filter fun node => sort.covers node.item

section Wired

variable (wired : g.Wired) {sort : Belonging} {i : Nat}
include wired

/-- **One home.**  What belongs to a scope has one link of its kind, and it leads to a scope. -/
theorem Wired.home (h : g.IsA sort i) :
    ∃ s, g.item? s = some .scope ∧ ∀ t, ⟨t, sort.kind⟩ ∈ g.links i ↔ t = s := by
  obtain ⟨item, hitem, hsort⟩ := h
  have hroot : i ≠ root := by
    refine wired.ne_root hitem ?_
    rintro rfl
    cases sort <;> cases hsort
  have hattached := wired.attached i item hroot hitem
  generalize g.links i = links at hattached ⊢
  cases hattached with
  | scope _ => cases sort <;> cases hsort
  | @definition _ p hp =>
    cases sort with
    | definition => exact ⟨p, hp.2, by simp [Belonging.kind]⟩
    | importStmt => cases hsort
    | reference => cases hsort
  | @importStmt _ p hp =>
    cases sort with
    | definition => cases hsort
    | importStmt => exact ⟨p, hp.2, by simp [Belonging.kind]⟩
    | reference => cases hsort
  | @reference named origin _ hnames horigin =>
    cases sort with
    | definition => cases hsort
    | importStmt => cases hsort
    | reference =>
      refine ⟨origin, horigin.2, fun t => ?_⟩
      rw [List.mem_append, List.mem_singleton]
      constructor
      · rintro (hnamed | heq)
        · -- what a reference means is no scope
          exact absurd rfl (hnames _ hnamed).kind_cases.1
        · exact (Link.mk.inj heq).1
      · rintro rfl
        exact Or.inr rfl

/-- No other node has a link of this kind. -/
theorem Wired.isA_of_link {t : Nat} (h : ⟨t, sort.kind⟩ ∈ g.links i) : g.IsA sort i := by
  obtain ⟨item, hitem, hattached⟩ := wired.attached_of_link h
  have hkind := hattached.item_of_link h
  refine ⟨item, hitem, ?_⟩
  cases sort with
  | definition => exact Belonging.covers_definition.2 hkind
  | importStmt => exact Belonging.covers_importStmt.2 hkind
  | reference => exact Belonging.covers_reference.2 hkind

variable (sort)

/-- **The scopes share out the nodes of each sort.** -/
theorem Wired.sharesOut : SharesOut g.scopes (g.sources sort.kind) (g.IsA sort) where
  distinct := List.nodup_range.filter _
  only := fun s _ i hi => wired.isA_of_link (mem_sources.1 hi).2
  one := by
    intro i hi
    obtain ⟨s, hs, hlink⟩ := wired.home hi
    have hsource : i ∈ g.sources sort.kind s := by
      have hmem := (hlink s).2 rfl
      exact mem_sources.2 ⟨lt_size_of_link hmem, hmem⟩
    refine ⟨s, ⟨mem_scopes.2 hs, hsource⟩, ?_⟩
    rintro t ⟨-, ht⟩
    exact (hlink t).1 (mem_sources.1 ht).2
  once := fun s _ => (sources_sorted g sort.kind s).imp fun hlt => Nat.ne_of_lt hlt

end Wired

/-! ## §3. Picking nodes by number. -/

theorem filterMap_getElem?_range {α : Type} (xs : List α) :
    (List.range xs.length).filterMap (fun i => xs[i]?) = xs := by
  induction xs with
  | nil => rfl
  | cons x xs ih =>
    rw [List.length_cons, List.range_succ_eq_map, List.filterMap_cons, List.filterMap_map]
    exact congrArg (x :: ·) ih

/-- The numbers of the nodes of a sort pick these nodes. -/
theorem pick_range (g : ScopeMap) (sort : Belonging) :
    g.pick ((List.range g.nodes.size).filter fun i => (g.item? i).any sort.covers) =
      g.nodesOf sort := by
  have hall : g.nodes.toList = (List.range g.nodes.size).filterMap g.node? := by
    have hrange := filterMap_getElem?_range g.nodes.toList
    simp only [Array.length_toList, Array.getElem?_toList] at hrange
    exact hrange.symm
  unfold pick nodesOf
  rw [hall, List.filter_filterMap, List.filterMap_filter]
  refine List.filterMap_congr fun i _ => ?_
  unfold item? node?
  cases g.nodes[i]? with
  | none => rfl
  | some node => rfl

/-- Numbers that share out the nodes of a sort pick each of these nodes once. -/
theorem pick_perm {sort : Belonging} {numbers : List Nat} (honce : numbers.Nodup)
    (hmem : ∀ i, i ∈ numbers ↔ g.IsA sort i) : (g.pick numbers).Perm (g.nodesOf sort) := by
  rw [← g.pick_range sort]
  refine List.Perm.filterMap _ ?_
  rw [List.perm_ext_iff_of_nodup honce (List.nodup_range.filter _)]
  intro i
  rw [hmem, List.mem_filter, List.mem_range, Option.any_eq_true]
  constructor
  · rintro ⟨item, hitem, hsort⟩
    exact ⟨lt_size_of_item? hitem, item, hitem, hsort⟩
  · rintro ⟨-, hsort⟩
    exact hsort

/-! ## §4. The lists. -/

/-- **Nothing is lost and nothing comes twice.**  In every map that insertions can make, the list of
all definitions has each definition once and nothing else, and so has the list of all imports.  The
references by the scope they stand in share out the references. -/
theorem listed_exactly_once {source : SourceRange} (h : Reachable (fun _ => True) source g) :
    (g.allDefinitions.Nodup ∧
        (∀ i, i ∈ g.allDefinitions ↔ ∃ sort, g.item? i = some (.definition sort)) ∧
        (g.pick g.allDefinitions).Perm (g.nodesOf .definition)) ∧
      (g.allImports.Nodup ∧
        (∀ i, i ∈ g.allImports ↔ ∃ statement, g.item? i = some (.importStmt statement)) ∧
        (g.pick g.allImports).Perm (g.nodesOf .importStmt)) ∧
      SharesOut g.scopes (g.sources .refToOrigin) (fun i => g.item? i = some .reference) := by
  have wired := wired_of_reachable h
  have hdefinitions := wired.sharesOut .definition
  have himports := wired.sharesOut .importStmt
  have hreferences := wired.sharesOut .reference
  refine ⟨⟨hdefinitions.nodup_flatMap, fun i => ?_,
    pick_perm hdefinitions.nodup_flatMap fun i => hdefinitions.mem_flatMap⟩,
    ⟨himports.nodup_flatMap, fun i => ?_,
      pick_perm himports.nodup_flatMap fun i => himports.mem_flatMap⟩, ?_⟩
  · rw [← isA_definition]
    exact hdefinitions.mem_flatMap
  · rw [← isA_importStmt]
    exact himports.mem_flatMap
  · have hsame : g.IsA .reference = fun i => g.item? i = some .reference :=
      funext fun i => propext isA_reference
    rw [← hsame]
    exact hreferences

/-- Of the definitions one was left in place, one was hoisted and one is global, and a scope was left
behind by an insertion that failed. -/
theorem listed_exactly_once_mixed :
    let start : ScopeMap :=
      { nodes := #[{ range := .ofRows 0 9, item := .scope }], placed := [(.ofRows 0 9, root)] }
    let g := mixedInsertions.foldl (fun g new => (g.insert new).2) start
    Reachable (fun _ => True) (.ofRows 0 9) g ∧ g.scopes = [0, 2, 3] ∧
      g.allDefinitions = [1, 4, 5] ∧ g.allImports = [6] ∧
      g.scopes.map (g.sources .refToOrigin) = [[], [7], []] ∧
      (g.pick g.allDefinitions).Perm (g.nodesOf .definition) ∧
      SharesOut g.scopes (g.sources .refToOrigin) (fun i => g.item? i = some .reference) := by
  intro start g
  have hreach : Reachable (fun _ => True) (.ofRows 0 9) g :=
    (Reachable.start rfl).insertAll mixedInsertions fun _ _ => trivial
  -- the map before its last insertion, which is that of the reference
  let before := (mixedInsertions.take 6).foldl (fun g new => (g.insert new).2) start
  have hmeasure : (SourceRange.ofRows 5 5).rows.measure = .ok () := by decide +kernel
  have hat : before.scopeAt (.ofRows 5 5) = 2 := by decide +kernel
  have hchain : before.outward 2 = [2, 0] := by decide +kernel
  have hknown : ((before.definitionsOf [2, 0] "x").isEmpty
      && (before.importsOf [2, 0] "x").isEmpty) = false := by decide +kernel
  have hg : g = before.push {
      range := .ofRows 5 5, name := "x", item := .reference
      links := before.referenceLinks [2, 0] "x" 2 } := by
    have hlast : mixedInsertions = mixedInsertions.take 6 ++ [.reference (.ofRows 5 5) "x"] := rfl
    show mixedInsertions.foldl _ start = _
    rw [hlast, List.foldl_append, List.foldl_cons, List.foldl_nil]
    show (before.insert (.reference (.ofRows 5 5) "x")).2 = _
    rw [insert_known hmeasure hat hchain hknown]
  have hlists : g.scopes = [0, 2, 3] ∧ g.allDefinitions = [1, 4, 5] ∧ g.allImports = [6] ∧
      g.scopes.map (g.sources .refToOrigin) = [[], [7], []] := by
    rw [hg]
    decide +kernel
  obtain ⟨⟨-, -, hpicked⟩, -, hshared⟩ := listed_exactly_once hreach
  exact ⟨hreach, hlists.1, hlists.2.1, hlists.2.2.1, hlists.2.2.2, hpicked, hshared⟩

end ScopeMap

end CodeAtlas

import CodeAtlas.Proofs.Scope.Shape
import Mathlib.Data.List.Nodup
import Mathlib.Logic.Relation

/-!
# Where the links end

A search follows the links from a node as deep as they go, passes by the nodes it has finished, and
finishes a node when all that the node leads to is finished.  Links lead to older nodes, so that the
way from node `i` has no more than `i + 1` nodes and the bound on the depth of the search is never
met.  Of the nodes that are finished only the scope of the whole source has no links, and it is one
of them: every other node has a link, and links do not lead back.

Main results:
  * `ScopeMap.Wired.finish_spec`: what a search adds to the nodes that were finished before;
  * `ScopeMap.Wired.leads_root`: all links lead to the whole source in the end;
  * `ScopeMap.leaves_only_root`: the one end of every search.
-/

namespace CodeAtlas.ScopeMap

variable {g : ScopeMap}

/-! ## §1. Where links lead. -/

/-- A link leads from node `i` to node `j`. -/
def LeadsOn (g : ScopeMap) (i j : Nat) : Prop :=
  ∃ l ∈ g.links i, l.target = j

/-- Links lead from node `i` to node `j`, one after the other or none at all. -/
def Leads (g : ScopeMap) : Nat → Nat → Prop :=
  Relation.ReflTransGen g.LeadsOn

theorem leads_iff {i j : Nat} : g.Leads i j ↔ j = i ∨ ∃ l ∈ g.links i, g.Leads l.target j := by
  unfold Leads
  rw [Relation.ReflTransGen.cases_head_iff]
  constructor
  · rintro (rfl | ⟨_, ⟨l, hl, rfl⟩, hrest⟩)
    · exact Or.inl rfl
    · exact Or.inr ⟨l, hl, hrest⟩
  · rintro (rfl | ⟨l, hl, hrest⟩)
    · exact Or.inl rfl
    · exact Or.inr ⟨l.target, ⟨l, hl, rfl⟩, hrest⟩

section Wired

variable (wired : g.Wired)
include wired

theorem Wired.le_of_leads {i j : Nat} (h : g.Leads i j) : j ≤ i := by
  induction h with
  | refl => exact Nat.le_refl i
  | tail _ hlast ih =>
    obtain ⟨l, hl, rfl⟩ := hlast
    have := wired.target_lt hl
    omega

/-- Every node but the first has a link. -/
theorem Wired.links_ne_nil {i : Nat} (hi : i < g.nodes.size) (hroot : i ≠ root) :
    g.links i ≠ [] := by
  obtain ⟨item, hitem⟩ := Option.isSome_iff_exists.1 ((g.item?_isSome_iff i).2 hi)
  have hattached := wired.attached i item hroot hitem
  generalize g.links i = links at hattached
  cases hattached with
  | scope _ => simp
  | definition _ => simp
  | importStmt _ => simp
  | reference _ _ _ => simp

/-- **All links lead to the whole source.** -/
theorem Wired.leads_root {i : Nat} (hi : i < g.nodes.size) : g.Leads i root := by
  induction i using Nat.strongRecOn with
  | ind i ih =>
    by_cases hroot : i = root
    · rw [hroot]
      exact Relation.ReflTransGen.refl
    · obtain ⟨l, hl⟩ := List.exists_mem_of_ne_nil _ (wired.links_ne_nil hi hroot)
      have hlt := wired.target_lt hl
      exact leads_iff.2 (Or.inr ⟨l, hl, ih l.target hlt (by omega)⟩)

end Wired

/-! ## §2. The search. -/

/-- Nodes in the order in which they were finished: each of them once, and all that a node is linked
to before the node itself. -/
structure Finished (g : ScopeMap) (done : List Nat) : Prop where
  once : done.Nodup
  closed : ∀ i ∈ done, ∀ l ∈ g.links i, l.target ∈ done
  ordered : done.Pairwise fun i j => ¬ g.LeadsOn i j

theorem finished_nil (g : ScopeMap) : g.Finished [] where
  once := List.nodup_nil
  closed := by simp
  ordered := List.Pairwise.nil

theorem Finished.leads {done : List Nat} (h : g.Finished done) {i j : Nat} (hi : i ∈ done)
    (hleads : g.Leads i j) : j ∈ done := by
  induction hleads with
  | refl => exact hi
  | tail _ hlast ih =>
    obtain ⟨l, hl, rfl⟩ := hlast
    exact h.closed _ ih l hl

/-- A node is finished when all that it is linked to has been. -/
theorem Finished.concat {done : List Nat} (h : g.Finished done) {i : Nat} (hi : i ∉ done)
    (hlinks : ∀ l ∈ g.links i, l.target ∈ done) : g.Finished (done ++ [i]) where
  once := by
    rw [← List.concat_eq_append]
    exact h.once.concat hi
  closed := by
    intro j hj l hl
    obtain hj | hj := List.mem_append.1 hj
    · exact List.mem_append_left _ (h.closed j hj l hl)
    · rw [List.mem_singleton.1 hj] at hl
      exact List.mem_append_left _ (hlinks l hl)
  ordered := by
    rw [List.pairwise_append]
    refine ⟨h.ordered, List.pairwise_singleton _ _, ?_⟩
    -- what was finished before leads to what was finished before, and not to the new node
    intro j hj k hk hleads
    obtain ⟨l, hl, htarget⟩ := hleads
    rw [List.mem_singleton.1 hk] at htarget
    exact hi (htarget ▸ h.closed j hj l hl)

/-- A search from each of several nodes in turn, if `search` does what it should for each of them. -/
theorem finish_row {search : List Nat → Link → List Nat} {links : List Link}
    (hsearch : ∀ l ∈ links, ∀ done, g.Finished done → g.Finished (search done l) ∧
      ∀ j, j ∈ search done l ↔ j ∈ done ∨ g.Leads l.target j)
    {done : List Nat} (h : g.Finished done) :
    g.Finished (links.foldl search done) ∧
      ∀ j, j ∈ links.foldl search done ↔ j ∈ done ∨ ∃ l ∈ links, g.Leads l.target j := by
  induction links generalizing done with
  | nil => exact ⟨h, by simp⟩
  | cons l links ih =>
    obtain ⟨hfirst, hmem⟩ := hsearch l List.mem_cons_self done h
    obtain ⟨hrest, hall⟩ := ih (fun k hk => hsearch k (List.mem_cons_of_mem _ hk)) hfirst
    refine ⟨hrest, fun j => ?_⟩
    rw [List.foldl_cons, hall, hmem, List.exists_mem_cons_iff, or_assoc]

/-- **The search.**  It keeps what was finished and adds all that the node leads to, if it may go as
deep as the number of the node. -/
theorem Wired.finish_spec (wired : g.Wired) {depth i : Nat} (hdepth : i < depth) {done : List Nat}
    (h : g.Finished done) :
    g.Finished (g.finish depth done i) ∧
      ∀ j, j ∈ g.finish depth done i ↔ j ∈ done ∨ g.Leads i j := by
  induction depth generalizing i done with
  | zero => omega
  | succ depth ih =>
    rw [finish]
    by_cases hdone : i ∈ done
    · rw [if_pos (List.contains_iff_mem.2 hdone)]
      refine ⟨h, fun j => ⟨Or.inl, ?_⟩⟩
      rintro (hj | hj)
      · exact hj
      · exact h.leads hdone hj
    · rw [if_neg fun hcontains => hdone (List.contains_iff_mem.1 hcontains)]
      -- links lead to older nodes, for which the depth that is left is enough
      have hdeep : ∀ l ∈ g.links i, l.target < depth := by
        intro l hl
        have := wired.target_lt hl
        omega
      obtain ⟨hrow, hmem⟩ := finish_row (fun l hl done hdone => ih (hdeep l hl) hdone) h
      have hi : i ∉ (g.links i).foldl (fun acc l => g.finish depth acc l.target) done := by
        rw [hmem]
        rintro (hi | ⟨l, hl, hleads⟩)
        · exact hdone hi
        · have hlt := wired.target_lt hl
          have hle := wired.le_of_leads hleads
          omega
      have hlinks : ∀ l ∈ g.links i,
          l.target ∈ (g.links i).foldl (fun acc l => g.finish depth acc l.target) done :=
        fun l hl => (hmem _).2 (Or.inr ⟨l, hl, Relation.ReflTransGen.refl⟩)
      refine ⟨hrow.concat hi hlinks, fun j => ?_⟩
      rw [List.mem_append, List.mem_singleton, hmem, leads_iff (i := i), or_assoc]
      exact or_congr_right or_comm

/-! ## §3. The end of every search. -/

/-- The nodes in the order in which a search from node `i` finishes them: those that `i` leads to,
each of them once, and behind all that it is linked to. -/
structure IsSearchFrom (g : ScopeMap) (i : Nat) (order : List Nat) : Prop where
  reached : ∀ j, j ∈ order ↔ g.Leads i j
  once : order.Nodup
  linkedBefore : order.Pairwise fun j k => ¬ g.LeadsOn j k

theorem Wired.isSearchFrom_finish (wired : g.Wired) {i : Nat} (hi : i < g.nodes.size) :
    g.IsSearchFrom i (g.finish (g.nodes.size + 1) [] i) := by
  obtain ⟨hfinished, hmem⟩ := wired.finish_spec (Nat.lt_succ_of_lt hi) g.finished_nil
  refine ⟨fun j => ?_, hfinished.once, hfinished.ordered⟩
  rw [hmem, or_iff_right List.not_mem_nil]

/-- **The one end.**  In every map that insertions can make, links lead from younger to older nodes,
and every node but the scope of the whole source has a link.  A search from any node finishes all
nodes that it leads to, and the scope of the whole source is the only one of them without links. -/
theorem leaves_only_root {source : SourceRange} (h : Reachable (fun _ => True) source g) :
    (∀ i l, (i, l) ∈ g.edges → l.target < i) ∧
      (∀ i, i < g.nodes.size → (g.links i = [] ↔ i = root)) ∧
      ∀ i, i < g.nodes.size →
        g.IsSearchFrom i (g.finish (g.nodes.size + 1) [] i) ∧ g.leaves i = [root] := by
  have wired := wired_of_reachable h
  have hends : ∀ i, i < g.nodes.size → (g.links i = [] ↔ i = root) := by
    intro i hi
    constructor
    · intro hnil
      by_contra hroot
      exact wired.links_ne_nil hi hroot hnil
    · rintro rfl
      exact wired.rootLinks
  refine ⟨fun i l hl => wired.target_lt (mem_edges.1 hl), hends, fun i hi => ?_⟩
  have hsearch := wired.isSearchFrom_finish hi
  refine ⟨hsearch, ?_⟩
  -- what has no links is the first node, and the first node is met once
  have hfilter : g.leaves i = (g.finish (g.nodes.size + 1) [] i).filter (· == root) := by
    refine List.filter_congr fun j hj => ?_
    have hle := wired.le_of_leads ((hsearch.reached j).1 hj)
    rw [Bool.eq_iff_iff, List.isEmpty_iff, beq_iff_eq, hends j (by omega)]
  have hroot : root ∈ g.finish (g.nodes.size + 1) [] i :=
    (hsearch.reached root).2 (wired.leads_root hi)
  rw [hfilter, List.filter_beq, List.count_eq_one_of_mem hsearch.once hroot, List.replicate_one]

/-- A reference to two definitions and an import, which lead to the whole source on different
ways. -/
theorem leaves_only_root_shadowing :
    let g := (shadowing.insert (.reference (.ofRows 5 5) "x")).2
    Reachable (fun _ => True) (.ofRows 0 9) g ∧
      g.links 6 = [⟨3, .refToDef⟩, ⟨1, .refToDef⟩, ⟨5, .refToImport⟩, ⟨2, .refToOrigin⟩] ∧
      g.finish (g.nodes.size + 1) [] 6 = [0, 2, 3, 1, 5, 6] ∧
      g.IsSearchFrom 6 [0, 2, 3, 1, 5, 6] ∧ g.leaves 6 = [root] := by
  intro g
  have hstart : Reachable (fun _ => True) (.ofRows 0 9) shadowing :=
    (Reachable.start rfl).insertAll _ fun _ _ => trivial
  have hreach : Reachable (fun _ => True) (.ofRows 0 9) g := hstart.insert _ trivial
  have hmeasure : (SourceRange.ofRows 5 5).rows.measure = .ok () := by decide +kernel
  have hat : shadowing.scopeAt (.ofRows 5 5) = 2 := by decide +kernel
  have hchain : shadowing.outward 2 = [2, 0] := by decide +kernel
  have hknown : ((shadowing.definitionsOf [2, 0] "x").isEmpty
      && (shadowing.importsOf [2, 0] "x").isEmpty) = false := by decide +kernel
  have hlinks : shadowing.referenceLinks [2, 0] "x" 2 =
      [⟨3, .refToDef⟩, ⟨1, .refToDef⟩, ⟨5, .refToImport⟩, ⟨2, .refToOrigin⟩] := by decide +kernel
  have hg : g = shadowing.push {
      range := .ofRows 5 5, name := "x", item := .reference
      links := [⟨3, .refToDef⟩, ⟨1, .refToDef⟩, ⟨5, .refToImport⟩, ⟨2, .refToOrigin⟩] } := by
    show (shadowing.insert (.reference (.ofRows 5 5) "x")).2 = _
    rw [insert_known hmeasure hat hchain hknown, hlinks]
  have hsize : 6 < g.nodes.size := by
    rw [hg]
    decide +kernel
  have horder : g.finish (g.nodes.size + 1) [] 6 = [0, 2, 3, 1, 5, 6] := by
    rw [hg]
    decide +kernel
  obtain ⟨-, -, hsearch⟩ := leaves_only_root hreach
  refine ⟨hreach, by rw [hg]; decide +kernel, horder, ?_, (hsearch 6 hsize).2⟩
  rw [← horder]
  exact (hsearch 6 hsize).1

end CodeAtlas.ScopeMap

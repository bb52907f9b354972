import CodeAtlas.Proofs.Scope.Shape
import Mathlib.Data.List.Chain
import Mathlib.Logic.Function.Iterate

/-!
# Ways up and down between scopes

The way up follows the link from a scope to the scope around it, one node after the other, until
there is none.  The way down collects the scopes right below a scope and then what is below each of
them, and remembers nothing of where it has been.  Both ways end: links lead to older nodes, so the
way up goes to ever smaller numbers and the way down to ever larger ones.  And since a scope has one
scope around it, the way down meets each scope once, and it meets exactly those scopes whose way up
comes by.

Main results:
  * `ScopeMap.Wired.links_of_scopeLink`: the one link that the way up can take;
  * `ScopeMap.Wired.mem_allScopesBelow`: what the way down meets;
  * `ScopeMap.Wired.allScopesBelow_nodup`: it meets nothing twice;
  * `ScopeMap.ways_agree`: the two ways in every map.
-/

namespace CodeAtlas.ScopeMap

variable {g : ScopeMap}

/-! ## §1. One step. -/

section OneStep

variable (wired : g.Wired) {u v p : Nat}
include wired

/-- Only scopes have a link to a scope around them, and then it is their only link. -/
theorem Wired.links_of_scopeLink (h : ⟨p, .scopeToScope⟩ ∈ g.links v) :
    g.links v = [⟨p, .scopeToScope⟩] ∧ g.item? v = some .scope ∧ g.OlderScope v p := by
  obtain ⟨item, hitem, hattached⟩ := wired.attached_of_link h
  obtain rfl : item = .scope := hattached.item_of_link h
  generalize g.links v = links at hattached h
  cases hattached with
  | scope hp =>
    cases List.mem_singleton.1 h
    exact ⟨rfl, hitem, hp⟩

theorem Wired.above?_eq_some_iff : g.above? v = some p ↔ ⟨p, .scopeToScope⟩ ∈ g.links v := by
  unfold above?
  rw [Option.map_eq_some_iff]
  constructor
  · rintro ⟨l, hfind, rfl⟩
    have hkind : l.kind = .scopeToScope := by simpa using List.find?_some hfind
    rw [← hkind]
    exact List.mem_of_find?_eq_some hfind
  · intro hlink
    rw [(wired.links_of_scopeLink hlink).1]
    exact ⟨_, rfl, rfl⟩

/-- A step up leads from a scope to an older one. -/
theorem Wired.above?_older (h : g.above? v = some p) :
    g.item? v = some .scope ∧ g.OlderScope v p :=
  (wired.links_of_scopeLink (wired.above?_eq_some_iff.1 h)).2

/-- From every scope there is a step up, but from that of the whole source. -/
theorem Wired.above?_of_scope (hv : g.item? v = some .scope) :
    v = root ∧ g.above? v = none ∨ ∃ p, g.above? v = some p ∧ g.OlderScope v p := by
  by_cases hroot : v = root
  · refine Or.inl ⟨hroot, ?_⟩
    unfold above?
    rw [hroot, wired.rootLinks]
    rfl
  · have hattached := wired.attached v _ hroot hv
    generalize hlinks : g.links v = links at hattached
    cases hattached with
    | @scope p hp =>
      refine Or.inr ⟨p, wired.above?_eq_some_iff.2 ?_, hp⟩
      rw [hlinks]
      exact List.mem_singleton_self _

/-- A scope lies right below another one if the step up leads from it to that one. -/
theorem Wired.mem_scopesBelow : v ∈ g.scopesBelow u ↔ g.above? v = some u := by
  unfold scopesBelow
  rw [mem_sources, wired.above?_eq_some_iff]
  exact ⟨And.right, fun hlink => ⟨lt_size_of_link hlink, hlink⟩⟩

/-- A step down leads to a younger scope of the map. -/
theorem Wired.lt_of_mem_scopesBelow (h : v ∈ g.scopesBelow u) : u < v ∧ v < g.nodes.size := by
  obtain ⟨hscope, holder⟩ := wired.above?_older (wired.mem_scopesBelow.1 h)
  exact ⟨holder.1, lt_size_of_item? hscope⟩

end OneStep

/-! ## §2. The way up. -/

/-- One step of the way up, which stays where it is once it has ended. -/
def stepUp (g : ScopeMap) (place : Option Nat) : Option Nat :=
  place.bind g.above?

section Up

variable (wired : g.Wired) {u v w : Nat}
include wired

theorem Wired.outward_eq (v : Nat) : g.outward v = v :: (g.above? v).elim [] g.outward := by
  cases habove : g.above? v with
  | none => rw [outward_of_none habove, Option.elim_none]
  | some p =>
    rw [outward_of_some habove, if_pos (wired.above?_older habove).2.1, Option.elim_some]

/-- **Step after step.**  The nodes of the way up are where its steps lead, and behind the last one
there is nothing. -/
theorem Wired.iterate_stepUp (k v : Nat) : g.stepUp^[k] (some v) = (g.outward v)[k]? := by
  induction k generalizing v with
  | zero =>
    rw [wired.outward_eq]
    rfl
  | succ k ih =>
    rw [Function.iterate_succ_apply, wired.outward_eq, List.getElem?_cons_succ]
    show g.stepUp^[k] (g.above? v) = _
    cases g.above? v with
    | none =>
      have hended : g.stepUp none = none := rfl
      rw [Function.iterate_fixed hended, Option.elim_none, List.getElem?_nil]
    | some p => exact ih p

theorem Wired.mem_outward : u ∈ g.outward v ↔ u = v ∨ ∃ p, g.above? v = some p ∧ u ∈ g.outward p := by
  rw [wired.outward_eq v, List.mem_cons]
  cases g.above? v <;> simp

theorem Wired.outward_getLast? (hv : g.item? v = some .scope) :
    (g.outward v).getLast? = some root := by
  induction v using Nat.strongRecOn with
  | ind v ih =>
    rw [wired.outward_eq]
    obtain ⟨rfl, habove⟩ | ⟨p, habove, holder⟩ := wired.above?_of_scope hv
    · rw [habove]
      rfl
    · rw [habove, Option.elim_some, List.getLast?_cons, ih p holder.1 holder.2]
      rfl

/-- On the way up from a scope, the node behind each one is the scope around it. -/
theorem Wired.outward_isChain (hv : g.item? v = some .scope) :
    (g.outward v).IsChain fun s p => g.around? s = some p := by
  induction v using Nat.strongRecOn with
  | ind v ih =>
    rw [wired.outward_eq]
    obtain ⟨-, habove⟩ | ⟨p, habove, holder⟩ := wired.above?_of_scope hv
    · rw [habove]
      exact .singleton v
    · rw [habove, Option.elim_some, List.isChain_cons]
      refine ⟨?_, ih p holder.1 holder.2⟩
      intro q hq
      rw [wired.outward_eq] at hq
      cases hq
      unfold around?
      rw [if_pos hv, habove]

/-- The way up from a node on the way is the rest of it. -/
theorem Wired.outward_trans (hwv : w ∈ g.outward v) (huw : u ∈ g.outward w) : u ∈ g.outward v := by
  induction v using Nat.strongRecOn with
  | ind v ih =>
    obtain rfl | ⟨p, habove, hp⟩ := wired.mem_outward.1 hwv
    · exact huw
    · exact wired.mem_outward.2
        (Or.inr ⟨p, habove, ih p (wired.above?_older habove).2.1 hp⟩)

/-- Of two nodes on one way up, the older one is on the way up from the younger one. -/
theorem Wired.mem_outward_of_lt (hw : w ∈ g.outward v) (hu : u ∈ g.outward v) (hlt : u < w) :
    u ∈ g.outward w := by
  induction v using Nat.strongRecOn with
  | ind v ih =>
    obtain rfl | ⟨p, habove, hp⟩ := wired.mem_outward.1 hw
    · exact hu
    · have hpv := (wired.above?_older habove).2.1
      have hwp := (outward_sorted g p).2 w hp
      obtain rfl | ⟨q, habove', hq⟩ := wired.mem_outward.1 hu
      · omega
      · rw [habove] at habove'
        cases habove'
        exact ih p hpv hp hq

/-- A scope is properly inside another one if that one is on the way up from the scope around it. -/
theorem Wired.mem_outward_and_ne :
    v ≠ u ∧ u ∈ g.outward v ↔ ∃ p, g.above? v = some p ∧ u ∈ g.outward p := by
  rw [wired.mem_outward]
  constructor
  · rintro ⟨hne, rfl | habove⟩
    · exact absurd rfl hne
    · exact habove
  · rintro ⟨p, habove, hu⟩
    have hpv := (wired.above?_older habove).2.1
    have hup := (outward_sorted g p).2 u hu
    exact ⟨by omega, Or.inr ⟨p, habove, hu⟩⟩

end Up

/-! ## §3. The way down. -/

section Down

variable (wired : g.Wired)
include wired

/-- What holds of a scope if it holds of all scopes right below it holds of every scope: the way
down leads to larger numbers, and these are bounded. -/
theorem Wired.downward_induction {P : Nat → Prop}
    (step : ∀ u, (∀ c ∈ g.scopesBelow u, P c) → P u) (u : Nat) : P u := by
  induction hrest : g.nodes.size - u using Nat.strongRecOn generalizing u with
  | ind rest ih =>
    refine step u fun c hc => ?_
    have hlt := wired.lt_of_mem_scopesBelow hc
    exact ih (g.nodes.size - c) (by omega) c rfl

theorem Wired.allScopesBelow_eq (u : Nat) :
    g.allScopesBelow u = g.scopesBelow u ++ (g.scopesBelow u).flatMap g.allScopesBelow := by
  have hbelow : ∀ c : { c // c ∈ g.scopesBelow u },
      (if _h : u < c.1 ∧ c.1 < g.nodes.size then g.allScopesBelow c.1 else [])
        = g.allScopesBelow c.1 := fun c => dif_pos (wired.lt_of_mem_scopesBelow c.2)
  conv => lhs; unfold allScopesBelow
  simp only [hbelow]
  rw [← List.flatMap_map Subtype.val g.allScopesBelow, List.attach_map_subtype_val]

/-- What is right below a scope that the way down meets is met as well. -/
theorem Wired.allScopesBelow_step {v p : Nat} (habove : g.above? v = some p) (u : Nat) :
    p ∈ g.allScopesBelow u → v ∈ g.allScopesBelow u := by
  induction u using wired.downward_induction with
  | step u ih =>
    intro hp
    rw [wired.allScopesBelow_eq, List.mem_append, List.mem_flatMap] at hp ⊢
    obtain hp | ⟨c, hc, hp⟩ := hp
    · refine Or.inr ⟨p, hp, ?_⟩
      rw [wired.allScopesBelow_eq]
      exact List.mem_append_left _ (wired.mem_scopesBelow.2 habove)
    · exact Or.inr ⟨c, hc, ih c hc hp⟩

/-- **What the way down meets** are the scopes properly inside the scope it begins with. -/
theorem Wired.mem_allScopesBelow {u v : Nat} :
    v ∈ g.allScopesBelow u ↔ v ≠ u ∧ u ∈ g.outward v := by
  rw [wired.mem_outward_and_ne]
  constructor
  · induction u using wired.downward_induction with
    | step u ih =>
      intro hv
      rw [wired.allScopesBelow_eq, List.mem_append, List.mem_flatMap] at hv
      obtain hv | ⟨c, hc, hv⟩ := hv
      · exact ⟨u, wired.mem_scopesBelow.1 hv, wired.mem_outward.2 (Or.inl rfl)⟩
      · obtain ⟨p, habove, hp⟩ := ih c hc hv
        -- the scope is inside one that lies right below, and so on the way to the outer one
        have huc : u ∈ g.outward c := wired.mem_outward.2
          (Or.inr ⟨u, wired.mem_scopesBelow.1 hc, wired.mem_outward.2 (Or.inl rfl)⟩)
        exact ⟨p, habove, wired.outward_trans hp huc⟩
  · rintro ⟨p, habove, hu⟩
    induction p using Nat.strongRecOn generalizing v with
    | ind p ih =>
      obtain rfl | ⟨q, habove', hq⟩ := wired.mem_outward.1 hu
      · rw [wired.allScopesBelow_eq]
        exact List.mem_append_left _ (wired.mem_scopesBelow.2 habove)
      · have hp := ih q (wired.above?_older habove').2.1 habove' hq
        exact wired.allScopesBelow_step habove u hp

/-- **Nothing is met twice.**  A scope inside two scopes that lie right below the same one would have
one of these two inside the other. -/
theorem Wired.allScopesBelow_nodup (u : Nat) : (g.allScopesBelow u).Nodup := by
  induction u using wired.downward_induction with
  | step u ih =>
    have hsorted : (g.scopesBelow u).Pairwise (· < ·) := sources_sorted g .scopeToScope u
    have hapart : ∀ c ∈ g.scopesBelow u, ∀ d ∈ g.outward u, d ≠ c := by
      intro c hc d hd
      have huc := (wired.lt_of_mem_scopesBelow hc).1
      have hdu := (outward_sorted g u).2 d hd
      omega
    rw [wired.allScopesBelow_eq, List.nodup_append, List.nodup_flatMap]
    refine ⟨hsorted.imp Nat.ne_of_lt, ⟨ih, ?_⟩, ?_⟩
    · refine hsorted.imp_of_mem fun {c d} hc hd hlt => ?_
      intro v hvc hvd
      have hcv := (wired.mem_allScopesBelow.1 hvc).2
      have hdv := (wired.mem_allScopesBelow.1 hvd).2
      have hcd := wired.mem_outward_of_lt hdv hcv hlt
      obtain ⟨p, habove, hp⟩ := wired.mem_outward_and_ne.1 ⟨Nat.ne_of_gt hlt, hcd⟩
      rw [wired.mem_scopesBelow.1 hd] at habove
      cases habove
      exact hapart c hc c hp rfl
    · intro v hv w hw hvw
      obtain ⟨c, hc, hw⟩ := List.mem_flatMap.1 hw
      obtain ⟨p, habove, hp⟩ := wired.mem_outward_and_ne.1 (wired.mem_allScopesBelow.1 hw)
      rw [← hvw, wired.mem_scopesBelow.1 hv] at habove
      cases habove
      exact hapart c hc c hp rfl

/-- The way down from the whole source meets all other scopes. -/
theorem Wired.allScopesBelow_root : (root :: g.allScopesBelow root).Perm g.scopes := by
  have hscopes : g.scopes.Nodup := List.Nodup.filter _ List.nodup_range
  have hroot : root ∉ g.allScopesBelow root := fun h => (wired.mem_allScopesBelow.1 h).1 rfl
  rw [List.perm_ext_iff_of_nodup (List.nodup_cons.2 ⟨hroot, wired.allScopesBelow_nodup root⟩) hscopes]
  intro v
  rw [List.mem_cons, wired.mem_allScopesBelow, mem_scopes]
  constructor
  · rintro (rfl | hinside)
    · exact wired.rootItem
    · obtain ⟨p, habove, -⟩ := wired.mem_outward_and_ne.1 hinside
      exact (wired.above?_older habove).1
  · intro hv
    by_cases hvr : v = root
    · exact Or.inl hvr
    · exact Or.inr ⟨hvr, List.mem_of_getLast? (wired.outward_getLast? hv)⟩

end Down

/-! ## §4. Both ways. -/

/-- The way up from scope `v`: what its steps lead to until it ends, from `v` to ever older scopes,
each the one around that before it, up to the whole source. -/
structure IsWayUp (g : ScopeMap) (v : Nat) (way : List Nat) : Prop where
  /-- The steps lead along the way and end with it. -/
  steps : ∀ k, g.stepUp^[k] (some v) = way[k]?
  first : way.head? = some v
  older : way.Pairwise (· > ·)
  last : way.getLast? = some root
  around : way.IsChain fun s p => g.around? s = some p

/-- The way down from node `u`: the scopes right below it, then the ways down from these, all of
which begin at younger nodes; each scope is met once at most. -/
structure IsWayDown (g : ScopeMap) (u : Nat) (way : List Nat) : Prop where
  younger : ∀ c ∈ g.scopesBelow u, u < c ∧ c < g.nodes.size
  unfolds : way = g.scopesBelow u ++ (g.scopesBelow u).flatMap g.allScopesBelow
  once : way.Nodup

/-- **The two ways agree.**  In every map that insertions can make, both ways end, the way up from a
scope leads to the whole source, and the way down from `u` meets `v` exactly if the way up from `v`
comes by `u` later on.  From the whole source it meets every other scope once. -/
theorem ways_agree {source : SourceRange} (h : Reachable (fun _ => True) source g) :
    (∀ v, g.item? v = some .scope → g.IsWayUp v (g.outward v)) ∧
      (∀ u, g.IsWayDown u (g.allScopesBelow u)) ∧
      (∀ u v, v ∈ g.allScopesBelow u ↔ v ≠ u ∧ u ∈ g.outward v) ∧
      (root :: g.allScopesBelow root).Perm g.scopes := by
  have wired := wired_of_reachable h
  refine ⟨?_, ?_, fun u v => wired.mem_allScopesBelow, wired.allScopesBelow_root⟩
  · intro v hv
    exact {
      steps := fun k => wired.iterate_stepUp k v
      first := by rw [wired.outward_eq]; rfl
      older := (outward_sorted g v).1
      last := wired.outward_getLast? hv
      around := wired.outward_isChain hv }
  · intro u
    exact {
      younger := fun c hc => wired.lt_of_mem_scopesBelow hc
      unfolds := wired.allScopesBelow_eq u
      once := wired.allScopesBelow_nodup u }

/-- Scopes two deep, with a definition between them, and one that is left behind by an insertion that
fails. -/
def nestedInsertions : List Insertion :=
  [.scope (.ofRows 1 6), .definition .inPlace (.ofRows 2 2) "x" none, .scope (.ofRows 3 5),
    .scope (.ofRows 7 7), .scope (.ofRows 5 4)]

theorem ways_agree_nested :
    let start : ScopeMap :=
      { nodes := #[{ range := .ofRows 0 9, item := .scope }], placed := [(.ofRows 0 9, root)] }
    let g := nestedInsertions.foldl (fun g new => (g.insert new).2) start
    Reachable (fun _ => True) (.ofRows 0 9) g ∧ g.scopes = [0, 1, 3, 4, 5] ∧
      g.outward 3 = [3, 1, 0] ∧ g.allScopesBelow root = [1, 4, 5, 3] ∧
      g.IsWayUp 3 (g.outward 3) ∧ g.IsWayDown root (g.allScopesBelow root) ∧
      (3 ∈ g.allScopesBelow 1 ↔ 3 ≠ 1 ∧ 1 ∈ g.outward 3) := by
  intro start g
  have hreach : Reachable (fun _ => True) (.ofRows 0 9) g :=
    (Reachable.start rfl).insertAll nestedInsertions fun _ _ => trivial
  obtain ⟨hup, hdown, hboth, -⟩ := ways_agree hreach
  exact ⟨hreach, by decide +kernel, by decide +kernel, by decide +kernel,
    hup 3 (by decide +kernel), hdown root, hboth 1 3⟩

end CodeAtlas.ScopeMap

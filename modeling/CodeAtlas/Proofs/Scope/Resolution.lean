import CodeAtlas.Proofs.Scope.Growth
import Mathlib.Data.List.Nodup

/-!
# What a reference is resolved to

A reference stands in the smallest scope around it and sees the scopes on the way outward from
there.  Of each of them it is linked to the oldest definition of its name, and to all imports of its
name; if there is neither in any of them, it is not added at all.  Nothing else in the map changes.

The links lead to different nodes.  This rests on the wiring: a definition or an import is attached
to one scope only, so that no two scopes on the way offer the same one.

Main results:
  * `ScopeMap.find?_eq_some_iff_first`: the definition that is found in a scope;
  * `ScopeMap.found_nodup`: the links of a reference lead to different nodes;
  * `ScopeMap.insert_reference_exact`: what the insertion of a reference does.
-/

namespace CodeAtlas.ScopeMap

/-! ## §1. Definitions and imports of a scope. -/

/-- Node `d` is a definition of the name and is attached to scope `s`. -/
def DefinesIn (g : ScopeMap) (name : String) (s d : Nat) : Prop :=
  ∃ node sort, g.nodes[d]? = some node ∧ node.item = .definition sort ∧ node.name = name ∧
    ⟨s, .defToScope⟩ ∈ node.links

/-- Node `m` is an import of the name and is attached to scope `s`. -/
def ImportsIn (g : ScopeMap) (name : String) (s m : Nat) : Prop :=
  ∃ node statement, g.nodes[m]? = some node ∧ node.item = .importStmt statement ∧
    name ∈ statement.names ∧ ⟨s, .importToScope⟩ ∈ node.links

/-- Node `d` is the oldest definition of the name in scope `s`. -/
def FirstDefinesIn (g : ScopeMap) (name : String) (s d : Nat) : Prop :=
  g.DefinesIn name s d ∧ ∀ e < d, ¬ g.DefinesIn name s e

theorem links_of_node {g : ScopeMap} {i : Nat} {node : ScopeEntry} (h : g.nodes[i]? = some node) :
    g.links i = node.links := by
  rw [links, h]
  rfl

theorem lt_size_of_node {g : ScopeMap} {i : Nat} {node : ScopeEntry}
    (h : g.nodes[i]? = some node) : i < g.nodes.size :=
  (Array.getElem?_eq_some_iff.1 h).1

theorem definesIn_iff {g : ScopeMap} {name : String} {s d : Nat} :
    g.DefinesIn name s d ↔ d ∈ g.sources .defToScope s ∧ g.defines name d = true := by
  rw [mem_sources, defines_iff]
  constructor
  · rintro ⟨node, sort, hnode, hitem, hname, hlink⟩
    refine ⟨⟨lt_size_of_node hnode, ?_⟩, node, sort, hnode, hitem, hname⟩
    rw [links_of_node hnode]
    exact hlink
  · rintro ⟨⟨-, hlink⟩, node, sort, hnode, hitem, hname⟩
    rw [links_of_node hnode] at hlink
    exact ⟨node, sort, hnode, hitem, hname, hlink⟩

theorem importsIn_iff {g : ScopeMap} {name : String} {s m : Nat} :
    g.ImportsIn name s m ↔ m ∈ g.sources .importToScope s ∧ g.importsName name m = true := by
  rw [mem_sources, importsName_iff]
  constructor
  · rintro ⟨node, statement, hnode, hitem, hname, hlink⟩
    refine ⟨⟨lt_size_of_node hnode, ?_⟩, node, statement, hnode, hitem, hname⟩
    rw [links_of_node hnode]
    exact hlink
  · rintro ⟨⟨-, hlink⟩, node, statement, hnode, hitem, hname⟩
    rw [links_of_node hnode] at hlink
    exact ⟨node, statement, hnode, hitem, hname, hlink⟩

theorem sources_sorted (g : ScopeMap) (kind : LinkKind) (target : Nat) :
    (g.sources kind target).Pairwise (· < ·) :=
  List.Pairwise.filter _ List.pairwise_lt_range

/-- The first definition in the row of those attached to a scope is the oldest one. -/
theorem firstDefinesIn_of_find? {g : ScopeMap} {name : String} {s d : Nat}
    (h : (g.sources .defToScope s).find? (g.defines name) = some d) :
    g.FirstDefinesIn name s d := by
  refine ⟨definesIn_iff.2 ⟨List.mem_of_find?_eq_some h, List.find?_some h⟩, ?_⟩
  intro e he hdef
  obtain ⟨hmem, hname⟩ := definesIn_iff.1 hdef
  obtain ⟨-, older, younger, hsplit, hnone⟩ := List.find?_eq_some_iff_append.1 h
  have hsorted := sources_sorted g .defToScope s
  -- the row is sorted: what lies before the one found is no definition, what lies behind is younger
  rw [hsplit] at hmem hsorted
  obtain holder | hrest := List.mem_append.1 hmem
  · have := hnone e holder
    rw [hname] at this
    cases this
  · obtain rfl | hyounger := List.mem_cons.1 hrest
    · exact Nat.lt_irrefl _ he
    · have := (List.pairwise_cons.1 (List.pairwise_append.1 hsorted).2.1).1 e hyounger
      omega

theorem FirstDefinesIn.eq {g : ScopeMap} {name : String} {s d e : Nat}
    (hd : g.FirstDefinesIn name s d) (he : g.FirstDefinesIn name s e) : d = e := by
  obtain hlt | heq | hlt := Nat.lt_trichotomy d e
  · exact absurd hd.1 (he.2 d hlt)
  · exact heq
  · exact absurd he.1 (hd.2 e hlt)

/-- A scope with a definition of the name has an oldest one. -/
theorem exists_find? {g : ScopeMap} {name : String} {s d : Nat} (h : g.DefinesIn name s d) :
    ∃ e, (g.sources .defToScope s).find? (g.defines name) = some e := by
  obtain ⟨hmem, hname⟩ := definesIn_iff.1 h
  cases hfind : (g.sources .defToScope s).find? (g.defines name) with
  | none => exact absurd hname (List.find?_eq_none.1 hfind d hmem)
  | some e => exact ⟨e, rfl⟩

theorem find?_eq_some_iff_first {g : ScopeMap} {name : String} {s d : Nat} :
    (g.sources .defToScope s).find? (g.defines name) = some d ↔ g.FirstDefinesIn name s d := by
  refine ⟨firstDefinesIn_of_find?, fun hfirst => ?_⟩
  obtain ⟨e, hfind⟩ := exists_find? hfirst.1
  rw [hfind, (firstDefinesIn_of_find? hfind).eq hfirst]

/-! ## §2. One scope for each definition and import. -/

section Unique

variable {g : ScopeMap} (wired : g.Wired) {name : String} {s t : Nat}
include wired

/-- What is neither a scope nor a reference has one link, to the scope that it is attached to. -/
theorem Wired.links_of_item {i : Nat} {item : ScopeItem} (hitem : g.item? i = some item)
    (hscope : item ≠ .scope) (hreference : item ≠ .reference) : ∃ link, g.links i = [link] := by
  have hi : i ≠ root := by
    rintro rfl
    rw [wired.rootItem] at hitem
    exact hscope (Option.some.inj hitem).symm
  generalize hlinks : g.links i = links
  have hattached := wired.attached i item hi hitem
  rw [hlinks] at hattached
  cases hattached with
  | scope _ => exact absurd rfl hscope
  | definition _ => exact ⟨_, rfl⟩
  | importStmt _ => exact ⟨_, rfl⟩
  | reference _ _ _ => exact absurd rfl hreference

theorem Wired.link_unique {i : Nat} {item : ScopeItem} {kind : LinkKind}
    (hitem : g.item? i = some item) (hscope : item ≠ .scope) (hreference : item ≠ .reference)
    (hs : ⟨s, kind⟩ ∈ g.links i) (ht : ⟨t, kind⟩ ∈ g.links i) : s = t := by
  obtain ⟨link, hlinks⟩ := wired.links_of_item hitem hscope hreference
  rw [hlinks, List.mem_singleton] at hs ht
  exact (Link.mk.inj (hs.trans ht.symm)).1

theorem Wired.definesIn_unique {d : Nat} (hs : g.DefinesIn name s d)
    (ht : g.DefinesIn name t d) : s = t := by
  obtain ⟨hsource, hdef⟩ := definesIn_iff.1 hs
  obtain ⟨node, sort, hnode, hitem, -⟩ := defines_iff.1 hdef
  exact wired.link_unique (item?_of_node hnode) (by simp [hitem]) (by simp [hitem])
    (mem_sources.1 hsource).2 (mem_sources.1 (definesIn_iff.1 ht).1).2

theorem Wired.importsIn_unique {m : Nat} (hs : g.ImportsIn name s m)
    (ht : g.ImportsIn name t m) : s = t := by
  obtain ⟨hsource, himport⟩ := importsIn_iff.1 hs
  obtain ⟨node, statement, hnode, hitem, -⟩ := importsName_iff.1 himport
  exact wired.link_unique (item?_of_node hnode) (by simp [hitem]) (by simp [hitem])
    (mem_sources.1 hsource).2 (mem_sources.1 (importsIn_iff.1 ht).1).2

end Unique

/-! ## §3. The links of a reference. -/

/-- The links of a reference that sees the given scopes and stands in `origin`. -/
def referenceLinks (g : ScopeMap) (chain : List Nat) (name : String) (origin : Nat) : List Link :=
  (g.definitionsOf chain name).map (⟨·, .refToDef⟩) ++
    (g.importsOf chain name).map (⟨·, .refToImport⟩) ++ [⟨origin, .refToOrigin⟩]

theorem mem_referenceLinks {g : ScopeMap} {chain : List Nat} {name : String} {origin : Nat}
    {l : Link} :
    l ∈ g.referenceLinks chain name origin ↔
      (∃ s ∈ chain, ∃ d, g.FirstDefinesIn name s d ∧ l = ⟨d, .refToDef⟩) ∨
      (∃ s ∈ chain, ∃ m, g.ImportsIn name s m ∧ l = ⟨m, .refToImport⟩) ∨
      l = ⟨origin, .refToOrigin⟩ := by
  unfold referenceLinks
  rw [List.mem_append, List.mem_append, List.mem_singleton, List.mem_map, List.mem_map, or_assoc]
  simp only [mem_definitionsOf, mem_importsOf, find?_eq_some_iff_first, ← importsIn_iff]
  refine or_congr ?_ (or_congr ?_ Iff.rfl)
  · constructor
    · rintro ⟨d, ⟨s, hs, hd⟩, rfl⟩
      exact ⟨s, hs, d, hd, rfl⟩
    · rintro ⟨s, hs, d, hd, rfl⟩
      exact ⟨d, ⟨s, hs, hd⟩, rfl⟩
  · constructor
    · rintro ⟨m, ⟨s, hs, hm⟩, rfl⟩
      exact ⟨s, hs, m, hm, rfl⟩
    · rintro ⟨s, hs, m, hm, rfl⟩
      exact ⟨m, ⟨s, hs, hm⟩, rfl⟩

theorem Wired.definitionsOf_nodup {g : ScopeMap} (wired : g.Wired) {chain : List Nat}
    (hchain : chain.Nodup) (name : String) : (g.definitionsOf chain name).Nodup := by
  refine hchain.filterMap fun s t d hs ht => ?_
  exact wired.definesIn_unique (firstDefinesIn_of_find? hs).1 (firstDefinesIn_of_find? ht).1

theorem Wired.importsOf_nodup {g : ScopeMap} (wired : g.Wired) {chain : List Nat}
    (hchain : chain.Nodup) (name : String) : (g.importsOf chain name).Nodup := by
  refine List.nodup_flatMap.2 ⟨fun s _ => ?_, hchain.imp fun {s t} hne => ?_⟩
  · exact ((sources_sorted g .importToScope s).imp fun h => Nat.ne_of_lt h).filter _
  · intro m hs ht
    rw [List.mem_filter] at hs ht
    exact hne (wired.importsIn_unique (importsIn_iff.2 hs) (importsIn_iff.2 ht))

/-- The links of a reference lead to different nodes. -/
theorem Wired.referenceLinks_nodup {g : ScopeMap} (wired : g.Wired) {chain : List Nat}
    (hchain : chain.Nodup) (name : String) {origin : Nat} (horigin : g.item? origin = some .scope) :
    ((g.referenceLinks chain name origin).map (·.target)).Nodup := by
  have htargets : (g.referenceLinks chain name origin).map (·.target) =
      g.definitionsOf chain name ++ (g.importsOf chain name ++ [origin]) := by
    simp [referenceLinks, Function.comp_def]
  rw [htargets, List.nodup_append, List.nodup_append]
  -- between the three parts, the nodes stand for different things
  refine ⟨wired.definitionsOf_nodup hchain name, ⟨wired.importsOf_nodup hchain name,
    List.nodup_singleton _, ?_⟩, ?_⟩
  · rintro m hm t ht rfl
    obtain ⟨statement, hitem⟩ := item?_of_mem_importsOf hm
    rw [List.mem_singleton.1 ht, horigin] at hitem
    cases hitem
  · rintro d hd t ht rfl
    obtain ⟨sort, hitem⟩ := item?_of_mem_definitionsOf hd
    obtain ht | ht := List.mem_append.1 ht
    · obtain ⟨statement, hother⟩ := item?_of_mem_importsOf ht
      rw [hitem] at hother
      cases hother
    · rw [List.mem_singleton.1 ht, horigin] at hitem
      cases hitem

/-- Of the definitions of a scope, a reference is linked to one. -/
theorem Wired.existsUnique_definition {g : ScopeMap} (wired : g.Wired) {chain : List Nat}
    {name : String} {origin s d : Nat} (hs : s ∈ chain) (hd : g.DefinesIn name s d) :
    ∃! e, ⟨e, .refToDef⟩ ∈ g.referenceLinks chain name origin ∧ g.DefinesIn name s e := by
  obtain ⟨e, hfind⟩ := exists_find? hd
  have hfirst := firstDefinesIn_of_find? hfind
  refine ⟨e, ⟨mem_referenceLinks.2 (Or.inl ⟨s, hs, e, hfirst, rfl⟩), hfirst.1⟩, ?_⟩
  rintro e' ⟨hlink, hdef⟩
  obtain ⟨t, -, d', hfirst', heq⟩ | ⟨t, -, m, -, heq⟩ | heq := mem_referenceLinks.1 hlink
  · cases heq
    cases wired.definesIn_unique hdef hfirst'.1
    exact hfirst'.eq hfirst
  · cases heq
  · cases heq

/-! ## §4. The insertion of a reference. -/

/-- The name means something in one of the scopes. -/
def Knows (g : ScopeMap) (chain : List Nat) (name : String) : Prop :=
  ∃ s ∈ chain, (∃ d, g.DefinesIn name s d) ∨ ∃ m, g.ImportsIn name s m

theorem knows_iff {g : ScopeMap} {chain : List Nat} {name : String} :
    g.Knows chain name ↔
      ((g.definitionsOf chain name).isEmpty && (g.importsOf chain name).isEmpty) = false := by
  rw [Bool.and_eq_false_iff, List.isEmpty_eq_false_iff_exists_mem,
    List.isEmpty_eq_false_iff_exists_mem]
  simp only [mem_definitionsOf, mem_importsOf, ← importsIn_iff]
  constructor
  · rintro ⟨s, hs, ⟨d, hd⟩ | ⟨m, hm⟩⟩
    · obtain ⟨e, he⟩ := exists_find? hd
      exact Or.inl ⟨e, s, hs, he⟩
    · exact Or.inr ⟨m, s, hs, hm⟩
  · rintro (⟨d, s, hs, hd⟩ | ⟨m, s, hs, hm⟩)
    · exact ⟨s, hs, Or.inl ⟨d, (firstDefinesIn_of_find? hd).1⟩⟩
    · exact ⟨s, hs, Or.inr ⟨m, hm⟩⟩

theorem refer_eq (g : ScopeMap) (range : SourceRange) (name : String) :
    g.refer range name =
      if (g.definitionsOf (g.outward (g.scopeAt range)) name).isEmpty
          && (g.importsOf (g.outward (g.scopeAt range)) name).isEmpty then g
      else g.push {
        range, name, item := .reference
        links := g.referenceLinks (g.outward (g.scopeAt range)) name (g.scopeAt range) } := rfl

/-- A reference whose name means something in the scopes around it is added with the links of its
name. -/
theorem insert_known {g : ScopeMap} {range : SourceRange} {name : String} {origin : Nat}
    {chain : List Nat} (hmeasure : range.rows.measure = .ok ()) (hat : g.scopeAt range = origin)
    (hchain : g.outward origin = chain)
    (hknown : ((g.definitionsOf chain name).isEmpty && (g.importsOf chain name).isEmpty) = false) :
    g.insert (.reference range name) = (.ok (), g.push {
      range, name, item := .reference, links := g.referenceLinks chain name origin }) := by
  have hrefer : g.insert (.reference range name) = (.ok (), g.refer range name) := by
    rw [insert_of_sought rfl, hmeasure]
    rfl
  rw [hrefer, refer_eq, hat, hchain, hknown]
  rfl

/-- **Resolution.**  A reference whose rows cannot be measured changes nothing.  Any other one
stands in the smallest scope around it.  If its name means nothing in the scopes on the way outward
from there, the map stays as it is.  Otherwise one node is added, and its links, which lead to
different nodes, are these: for each of the scopes with a definition of the name one to the oldest
definition, one to each import of the name in any of the scopes, and one to the scope that the
reference stands in. -/
theorem insert_reference_exact {source : SourceRange} {g : ScopeMap}
    (h : Reachable (fun _ => True) source g) (range : SourceRange) (name : String) :
    (∀ e, range.rows.measure = .error e →
      g.smallestAround range none = .error e ∧
        g.insert (.reference range name) = (.error e, g)) ∧
    (range.rows.measure = .ok () →
      ∃ origin : Nat, g.smallestAround range none = .ok origin ∧
        (¬ g.Knows (g.outward origin) name → g.insert (.reference range name) = (.ok (), g)) ∧
        (g.Knows (g.outward origin) name → ∃ links,
          g.insert (.reference range name) =
            (.ok (), g.push { range, name, item := .reference, links }) ∧
          (links.map (·.target)).Nodup ∧
          (∀ l, l ∈ links ↔
            (∃ s ∈ g.outward origin, ∃ d, g.FirstDefinesIn name s d ∧ l = ⟨d, .refToDef⟩) ∨
            (∃ s ∈ g.outward origin, ∃ m, g.ImportsIn name s m ∧ l = ⟨m, .refToImport⟩) ∨
            l = ⟨origin, .refToOrigin⟩) ∧
          ∀ s ∈ g.outward origin, (∃ d, g.DefinesIn name s d) →
            ∃! d, ⟨d, .refToDef⟩ ∈ links ∧ g.DefinesIn name s d)) := by
  have hinsert := @insert_of_sought g (.reference range name) range rfl
  refine ⟨fun e he => ⟨?_, ?_⟩, fun hmeasure => ?_⟩
  · unfold smallestAround
    rw [he]
    rfl
  · rw [hinsert, he]
  · have wired := wired_of_reachable h
    have horigin := (wired.olderScope_scopeAt range).2
    have hrefer : g.insert (.reference range name) = (.ok (), g.refer range name) := by
      rw [hinsert, hmeasure]
      rfl
    rw [hrefer, refer_eq]
    refine ⟨g.scopeAt range, smallestAround_of_measure g hmeasure, fun hno => ?_, fun hyes => ?_⟩
    · rw [knows_iff, Bool.not_eq_false] at hno
      rw [if_pos hno]
    · have hsome := knows_iff.1 hyes
      refine ⟨g.referenceLinks (g.outward (g.scopeAt range)) name (g.scopeAt range), ?_,
        wired.referenceLinks_nodup (outward_nodup g _) name horigin, fun l => mem_referenceLinks,
        fun s hs ⟨d, hd⟩ => wired.existsUnique_definition hs hd⟩
      rw [hsome]
      rfl

/-- A map in which `x` is defined in the source, and defined twice and imported in a scope. -/
def shadowing : ScopeMap :=
  [Insertion.definition .inPlace (.ofRows 1 1) "x" none, .scope (.ofRows 2 6),
    .definition .inPlace (.ofRows 3 3) "x" none, .definition .inPlace (.ofRows 4 4) "x" none,
    .importStmt (.ofRows 4 4) { names := ["x"] }].foldl (fun g new => (g.insert new).2)
    { nodes := #[{ range := .ofRows 0 9, item := .scope }], placed := [(.ofRows 0 9, root)] }

/-- In the scope, `x` is the older of the two definitions and the import, and further out it is the
definition in the source. -/
theorem insert_reference_exact_shadowing :
    ∃ links, shadowing.insert (.reference (.ofRows 5 5) "x") = (.ok (), shadowing.push
        { range := .ofRows 5 5, name := "x", item := .reference, links }) ∧
      (links.map (·.target)).Nodup ∧ ⟨3, .refToDef⟩ ∈ links ∧ ⟨1, .refToDef⟩ ∈ links ∧
      ⟨5, .refToImport⟩ ∈ links ∧ ⟨2, .refToOrigin⟩ ∈ links := by
  have hreachable : Reachable (fun _ => True) (.ofRows 0 9) shadowing :=
    (Reachable.start (by rfl)).insertAll _ fun _ _ => trivial
  obtain ⟨-, hok⟩ := insert_reference_exact hreachable (.ofRows 5 5) "x"
  obtain ⟨origin, horigin, -, hknown⟩ := hok (by decide +kernel)
  have htwo : origin = 2 := by
    have : shadowing.smallestAround (.ofRows 5 5) none = .ok 2 := by decide +kernel
    rw [this] at horigin
    exact (Int.ofNat.inj (Except.ok.inj horigin)).symm
  subst htwo
  have hchain : shadowing.outward 2 = [2, 0] := by decide +kernel
  rw [hchain] at hknown
  have hdef : shadowing.DefinesIn "x" 2 3 := definesIn_iff.2 (by decide +kernel)
  obtain ⟨links, hinsert, hnodup, hlinks, -⟩ := hknown ⟨2, by simp, Or.inl ⟨3, hdef⟩⟩
  refine ⟨links, hinsert, hnodup, (hlinks _).2 ?_, (hlinks _).2 ?_, (hlinks _).2 ?_,
    (hlinks _).2 ?_⟩
  · exact Or.inl ⟨2, by simp, 3, find?_eq_some_iff_first.1 (by decide +kernel), rfl⟩
  · exact Or.inl ⟨0, by simp, 1, find?_eq_some_iff_first.1 (by decide +kernel), rfl⟩
  · exact Or.inr (Or.inl ⟨2, by simp, 5, importsIn_iff.2 (by decide +kernel), rfl⟩)
  · exact Or.inr (Or.inr rfl)

end CodeAtlas.ScopeMap

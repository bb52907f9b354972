import CodeAtlas.Proofs.Repo.Links
import CodeAtlas.Proofs.Scope.Listings
import CodeAtlas.Proofs.Scope.Traversals
import CodeAtlas.Proofs.Scope.Visibility

/-!
# References behind the edges of a repository

The scopes that are listed for an imported name are all those of the file that refer to the name.  A
reference leads to the import only if the import is in sight of its scope, which is to say attached
to one of the scopes on the way outward from there.  In a scope that does not see the import the
name means a definition or another import; the scope is listed all the same, and the repository gets
an edge from it.  An import of the whole source is in sight of every scope.

Main results:
  * `ScopeMap.Settled.backs_iff`: the references of a scope lead to the imports that it sees;
  * `FileImport.mem_ofFile`: the imports of a file are those of its import nodes;
  * `RepoMap.hasEdge_iff_stems`: the import nodes that edges stem from;
  * `RepoMap.backed_iff_sees`: which listed scopes, and so which edges, have references behind them.
-/

namespace CodeAtlas

/-! ## §1. Imports in sight. -/

namespace ScopeMap

/-- Import `m` is attached to a scope on the way outward from scope `s`. -/
def Sees (g : ScopeMap) (s m : Nat) : Prop :=
  ∃ d ∈ g.outward s, ⟨d, .importToScope⟩ ∈ g.links m

/-- A reference that stands in scope `s` leads to import `m`. -/
def Backs (g : ScopeMap) (s m : Nat) : Prop :=
  ∃ x, ⟨s, .refToOrigin⟩ ∈ g.links x ∧ ⟨m, .refToImport⟩ ∈ g.links x

/-- Scope `s` refers to one of the names of import `m`. -/
def RefersTo (g : ScopeMap) (s m : Nat) : Prop :=
  ∃ statement name, g.item? m = some (.importStmt statement) ∧ name ∈ statement.names ∧
    g.IsOrigin name s

variable {g : ScopeMap} {s m : Nat} {statement : ImportStmt}

theorem importsIn_of_item (hm : g.item? m = some (.importStmt statement)) {name : String}
    {d : Nat} :
    g.ImportsIn name d m ↔ name ∈ statement.names ∧ ⟨d, .importToScope⟩ ∈ g.links m := by
  rw [importsIn_iff, mem_sources, importsName_iff]
  constructor
  · rintro ⟨⟨_, hlink⟩, node, other, hnode, hitem, hname⟩
    rw [item?_of_node hnode, hitem] at hm
    cases hm
    exact ⟨hname, hlink⟩
  · rintro ⟨hname, hlink⟩
    unfold item? at hm
    obtain ⟨node, hnode, hitem⟩ := Option.map_eq_some_iff.1 hm
    exact ⟨⟨lt_size_of_node hnode, hlink⟩, node, statement, hnode, hitem, hname⟩

/-- What has a link to the scope it stands in is attached as references are. -/
theorem Wired.attached_of_origin (wired : g.Wired) {x : Nat}
    (hx : ⟨s, .refToOrigin⟩ ∈ g.links x) : g.Attached x .reference (g.links x) := by
  have hreference := wired.reference_of_origin hx
  exact wired.attached x _ (wired.ne_root hreference (by simp)) hreference

theorem Wired.scope_of_origin (wired : g.Wired) {x : Nat}
    (hx : ⟨s, .refToOrigin⟩ ∈ g.links x) : g.item? s = some .scope := by
  obtain ⟨⟨origin, hfilter, hscope⟩, -, -⟩ := (wired.attached_of_origin hx).reference_links
  have hmem : ⟨s, .refToOrigin⟩ ∈ (g.links x).filter fun l => l.kind = .refToOrigin :=
    List.mem_filter.2 ⟨hx, by simp⟩
  rw [hfilter, List.mem_singleton] at hmem
  rw [(Link.mk.inj hmem).1]
  exact hscope

/-- A reference leads to an import of its name that its scope sees. -/
theorem Settled.leads_iff (settled : g.Settled) (hm : g.item? m = some (.importStmt statement))
    {x : Nat} (hx : ⟨s, .refToOrigin⟩ ∈ g.links x) :
    ⟨m, .refToImport⟩ ∈ g.links x ↔ g.Sees s m ∧ g.nameOf x ∈ statement.names := by
  rw [settled x s hx, mem_referenceLinks]
  constructor
  · rintro (⟨d, -, _, -, heq⟩ | ⟨d, hd, m', himport, heq⟩ | heq)
    · cases heq
    · cases heq
      obtain ⟨hname, hlink⟩ := (importsIn_of_item hm).1 himport
      exact ⟨⟨d, hd, hlink⟩, hname⟩
    · cases heq
  · rintro ⟨⟨d, hd, hlink⟩, hname⟩
    exact Or.inr (Or.inl ⟨d, hd, m, (importsIn_of_item hm).2 ⟨hname, hlink⟩, rfl⟩)

/-- **The references of a scope lead to the imports that it sees,** if it refers to one of their
names. -/
theorem Settled.backs_iff (settled : g.Settled) (wired : g.Wired)
    (hm : g.item? m = some (.importStmt statement)) :
    g.Backs s m ↔ g.Sees s m ∧ g.RefersTo s m := by
  constructor
  · rintro ⟨x, horigin, hlink⟩
    obtain ⟨hsees, hname⟩ := (settled.leads_iff hm horigin).1 hlink
    have hreference := wired.reference_of_origin horigin
    exact ⟨hsees, statement, _, hm, hname, wired.scope_of_origin horigin, x, hreference, rfl,
      horigin⟩
  · rintro ⟨hsees, other, name, hother, hname, _, x, _, hx, horigin⟩
    cases hm.symm.trans hother
    rw [← hx] at hname
    exact ⟨x, horigin, (settled.leads_iff hm horigin).2 ⟨hsees, hname⟩⟩

/-- A reference that does not lead to the import leads to a definition or to another import. -/
theorem Wired.means_else (wired : g.Wired) {x : Nat} (hx : ⟨s, .refToOrigin⟩ ∈ g.links x)
    (hno : ⟨m, .refToImport⟩ ∉ g.links x) :
    ∃ l ∈ g.links x, l.kind = .refToDef ∨ l.kind = .refToImport ∧ l.target ≠ m := by
  obtain ⟨-, ⟨l, hl, hkind⟩, hmeans⟩ := (wired.attached_of_origin hx).reference_links
  obtain ⟨hdef, -⟩ | ⟨himport, -⟩ := hmeans l hl hkind
  · exact ⟨l, hl, Or.inl hdef⟩
  · -- a link to an import that is not `m` itself
    refine ⟨l, hl, Or.inr ⟨himport, fun htarget => hno ?_⟩⟩
    rw [← htarget, ← himport]
    exact hl

/-- The way outward from a scope ends with the whole source. -/
theorem Wired.root_mem_outward (wired : g.Wired) (hs : g.item? s = some .scope) :
    root ∈ g.outward s :=
  List.mem_of_getLast? (wired.outward_getLast? hs)

/-- All imports are attached to scopes, and so none is missed. -/
theorem Wired.mem_allImports (wired : g.Wired) (hm : g.item? m = some (.importStmt statement)) :
    m ∈ g.allImports :=
  (wired.sharesOut .importStmt).mem_flatMap.2 (isA_importStmt.2 ⟨statement, hm⟩)

end ScopeMap

/-! ## §2. The imports of a file. -/

namespace FileImport

variable {w : Setting} {file : FilePath} {g : ScopeMap}

theorem mem_statements (wired : g.Wired) {statement : ImportStmt} :
    statement ∈ statements g ↔ ∃ m, g.item? m = some (.importStmt statement) := by
  unfold statements
  rw [List.mem_filterMap]
  constructor
  · rintro ⟨m, _, hitem⟩
    split at hitem
    case h_1 found hfound =>
      cases hitem
      exact ⟨m, hfound⟩
    case h_2 => cases hitem
  · rintro ⟨m, hm⟩
    refine ⟨m, wired.mem_allImports hm, ?_⟩
    rw [hm]

/-- **The imports of a file are those of its import nodes.** -/
theorem mem_ofFile (wired : g.Wired) {imports : List FileImport}
    (h : ofFile w file g = .ok imports) {i : FileImport} :
    i ∈ imports ↔ ∃ m statement row, g.item? m = some (.importStmt statement) ∧
      ofStatement w file g statement = .ok row ∧ i ∈ row := by
  rw [ofFile, Outcome.bind_ok] at h
  obtain ⟨rows, hrows, h⟩ := h
  rw [← Outcome.pure_ok.1 h, List.mem_flatten]
  simp only [Outcome.mem_of_mapM hrows, mem_statements wired]
  constructor
  · rintro ⟨row, ⟨statement, ⟨m, hm⟩, hrow⟩, hi⟩
    exact ⟨m, statement, row, hm, hrow, hi⟩
  · rintro ⟨m, statement, row, hm, hrow, hi⟩
    exact ⟨row, ⟨statement, ⟨m, hm⟩, hrow⟩, hi⟩

/-- A name without dots that is imported from a module is its own last part. -/
theorem child_mem_names {statement : ImportStmt} {n : Namespace} (hn : n ∈ namespacesOf statement)
    (hsource : statement.source ≠ "") (hplain : ∀ name ∈ statement.names, '.' ∉ name.toList) :
    n.child ∈ statement.names := by
  unfold namespacesOf at hn
  rw [if_neg hsource] at hn
  obtain ⟨name, hname, rfl⟩ := List.mem_map.1 hn
  have hsplit : Text.split '.' name = [name] := by
    unfold Text.split
    rw [List.splitOn_eq_singleton (hplain name hname)]
    simp
  unfold Namespace.child Namespace.of
  rw [hsplit]
  exact hname

end FileImport

/-! ## §3. The import nodes behind an edge. -/

namespace RepoMap

/-- The edge from scope `s` of the file to scope `d` of file `t` is made for import `m` of the file:
one of the names that it imports is exported by the scope, and `s` is listed for the name. -/
def StemsFrom (w : FileImport.Setting) (readings : List Reading) (file : FilePath)
    (scopes : ScopeMap) (m s : Nat) (t : FilePath) (d : Nat) : Prop :=
  ∃ statement imports i, scopes.item? m = some (.importStmt statement) ∧
    FileImport.ofStatement w file scopes statement = .ok imports ∧ i ∈ imports ∧
    s ∈ i.refScopes ∧ i.sort = .inRepo ∧ w.tree.find? i.name.path.parts = some t ∧
    Text.contains "__init__.py" t.text = false ∧ Exports w readings t i.name.child d

variable {w : FileImport.Setting} {readings : List Reading} {g : RepoMap}

/-- **Every edge stems from an import node,** and every listed scope gives rise to its edges. -/
theorem hasEdge_iff_stems (htree : w.tree.Proper) (h : build w readings = .ok g)
    {f t : FilePath} {s d : Nat} (hf : f.Proper) (ht : t.Proper) :
    g.HasEdge f s t d ↔
      ∃ scopes m, HasScopes w readings f scopes ∧ StemsFrom w readings f scopes m s t d := by
  rw [hasEdge_iff htree h hf ht]
  -- a tie speaks of the imports of the whole file, which are sorted here by their import nodes
  constructor
  · rintro ⟨scopes, imports, i, hscopes, hofFile, hi, hsort, hfind, hopening, hexports, hs⟩
    rw [← FileImport.mem_scopesReferringTo hscopes.wired,
      ← FileImport.refScopes_of_ofFile hofFile hi] at hs
    obtain ⟨m, statement, row, hm, hrow, hi⟩ := (FileImport.mem_ofFile hscopes.wired hofFile).1 hi
    exact ⟨scopes, m, hscopes, statement, row, i, hm, hrow, hi, hs, hsort, hfind, hopening,
      hexports⟩
  · rintro ⟨scopes, m, hscopes, statement, row, i, hm, hrow, hi, hs, hsort, hfind, hopening,
      hexports⟩
    obtain ⟨imports, hofFile⟩ := ofFile_of_build h hscopes
    have hi := (FileImport.mem_ofFile hscopes.wired hofFile).2 ⟨m, statement, row, hm, hrow, hi⟩
    rw [FileImport.refScopes_of_ofFile hofFile hi,
      FileImport.mem_scopesReferringTo hscopes.wired] at hs
    exact ⟨scopes, imports, i, hscopes, hofFile, hi, hsort, hfind, hopening, hexports, hs⟩

/-! ## §4. References behind an edge. -/

/-- **A listed scope has references to the import behind it exactly if it sees the import** and
refers to one of its names.  For names without dots that are imported from a module the latter is
always so, and an import of the whole source is seen by all scopes.  Where the import is not seen,
each reference in the scope leads to definitions and other imports only.  The edges of a repository
are made for all listed scopes, and so the same tells which edges have references behind them. -/
theorem backed_iff_sees (w : FileImport.Setting) (readings : List Reading) :
    (∀ (r : Reading) (g : ScopeMap), r.scopeMap = .ok g →
      ∀ (file : FilePath) (m : Nat) (statement : ImportStmt) (imports : List FileImport),
      g.item? m = some (.importStmt statement) →
      FileImport.ofStatement w file g statement = .ok imports →
      ∀ i ∈ imports, ∀ s ∈ i.refScopes,
        (g.Backs s m ↔ g.Sees s m ∧ g.RefersTo s m) ∧
        (statement.source ≠ "" → (∀ name ∈ statement.names, '.' ∉ name.toList) →
          g.RefersTo s m) ∧
        (⟨ScopeMap.root, .importToScope⟩ ∈ g.links m → g.Sees s m) ∧
        (¬ g.Sees s m → ∀ x, ⟨s, .refToOrigin⟩ ∈ g.links x →
          ⟨m, .refToImport⟩ ∉ g.links x ∧
          ∃ l ∈ g.links x, l.kind = .refToDef ∨ l.kind = .refToImport ∧ l.target ≠ m)) ∧
    (∀ g : RepoMap, w.tree.Proper → build w readings = .ok g →
      ∀ (f : FilePath) (s : Nat) (t : FilePath) (d : Nat), f.Proper → t.Proper →
        (g.HasEdge f s t d ↔
          ∃ scopes m, HasScopes w readings f scopes ∧ StemsFrom w readings f scopes m s t d) ∧
        ∀ scopes m, HasScopes w readings f scopes → StemsFrom w readings f scopes m s t d →
          (scopes.Backs s m ↔ scopes.Sees s m ∧ scopes.RefersTo s m)) := by
  constructor
  · intro r g h file m statement imports hm himports i hi s hs
    have settled := ScopeMap.settled_of_scopeMap h
    have wired := ScopeMap.wired_of_reachable (Reading.reachable_scopeMap h)
    have hresolved := FileImport.resolved_of_resolveAll himports hi
    rw [hresolved.refScopes_eq, FileImport.mem_scopesReferringTo wired] at hs
    refine ⟨settled.backs_iff wired hm, ?_, ?_, ?_⟩
    · intro hsource hplain
      have hchild := FileImport.child_mem_names hresolved.name_mem hsource hplain
      exact ⟨statement, _, hm, hchild, hs⟩
    · intro hroot
      exact ⟨ScopeMap.root, wired.root_mem_outward hs.1, hroot⟩
    · intro hunseen x hx
      have hno : ⟨m, .refToImport⟩ ∉ g.links x := by
        intro hlink
        exact hunseen ((settled.leads_iff hm hx).1 hlink).1
      exact ⟨hno, wired.means_else hx hno⟩
  · intro g htree h f s t d hf ht
    refine ⟨hasEdge_iff_stems htree h hf ht, ?_⟩
    intro scopes m hscopes hstems
    obtain ⟨r, hread⟩ := hscopes.exists_reading
    obtain ⟨statement, imports, i, hm, -⟩ := hstems
    exact (ScopeMap.settled_of_scopeMap hread).backs_iff hscopes.wired hm

/-- The source of `a.py`: one function imports `foo` from `b`, and the other one has a `foo` of its
own. -/
def shadower : Reading :=
  ⟨"def f():\n  from b import foo\n  pass\ndef g():\n  foo = 1\n  print(foo)\n  pass\n".toUTF8,
    0, 75,
    [⟨0, 35, "local.scope"⟩, ⟨11, 28, "local.import.statement"⟩, ⟨16, 17, "local.import.module"⟩,
      ⟨25, 28, "local.import.name"⟩, ⟨36, 74, "local.scope"⟩,
      ⟨47, 50, "local.definition.variable"⟩, ⟨63, 66, "local.reference"⟩]⟩

def shadowerScopes : ScopeMap where
  nodes := #[{ range := ⟨0, 75, 0, 0, 7, 0⟩, item := .scope },
    { range := ⟨0, 35, 0, 0, 2, 6⟩, item := .scope, links := [⟨0, .scopeToScope⟩] },
    { range := ⟨36, 74, 3, 0, 6, 6⟩, item := .scope, links := [⟨0, .scopeToScope⟩] },
    { range := ⟨11, 28, 1, 2, 1, 19⟩, item := .importStmt { names := ["foo"], source := "b" },
      links := [⟨1, .importToScope⟩] },
    { range := ⟨47, 50, 4, 2, 4, 5⟩, item := .definition (.recorded (some "variable")),
      name := "foo", links := [⟨2, .defToScope⟩] },
    { range := ⟨63, 66, 5, 8, 5, 11⟩, item := .reference, name := "foo",
      links := [⟨4, .refToDef⟩, ⟨2, .refToOrigin⟩] }]
  placed := [(⟨0, 75, 0, 0, 7, 0⟩, 0), (⟨0, 35, 0, 0, 2, 6⟩, 1), (⟨36, 74, 3, 0, 6, 6⟩, 2)]

theorem scopeMap_shadower : shadower.scopeMap = .ok shadowerScopes := by
  have hrange : shadower.range = ⟨0, 75, 0, 0, 7, 0⟩ := by
    simp only [Reading.range, SourceRange.between, Source.pointAt_eq]
    decide +kernel
  have hroles : shadower.roles = [(⟨0, 35, 0, 0, 2, 6⟩, .scope),
      (⟨11, 28, 1, 2, 1, 19⟩, .importStmt), (⟨16, 17, 1, 7, 1, 8⟩, .importPart "module"),
      (⟨25, 28, 1, 16, 1, 19⟩, .importPart "name"), (⟨36, 74, 3, 0, 6, 6⟩, .scope),
      (⟨47, 50, 4, 2, 4, 5⟩, .definition "local" (some "variable")),
      (⟨63, 66, 5, 8, 5, 11⟩, .reference)] := by
    simp only [Reading.roles, SourceRange.between, Source.pointAt_eq]
    decide +kernel
  rw [Reading.scopeMap, hrange, hroles]
  -- the map before the reference, which stands in the second function
  let before : ScopeMap := ⟨shadowerScopes.nodes.take 5, shadowerScopes.placed⟩
  have hat : before.scopeAt ⟨63, 66, 5, 8, 5, 11⟩ = 2 := by decide +kernel
  have hchain : before.outward 2 = [2, 0] := by decide +kernel
  have hmeasure : (SourceRange.mk 63 66 5 8 5 11).rows.measure = .ok () := by decide +kernel
  have hrefer : before.refer ⟨63, 66, 5, 8, 5, 11⟩ "foo" = shadowerScopes := by
    rw [ScopeMap.refer_eq, hat, hchain]
    decide +kernel
  have hinsert : before.insertAll [.reference ⟨63, 66, 5, 8, 5, 11⟩ "foo"]
      = .ok shadowerScopes := by
    rw [ScopeMap.insertAll_reference hmeasure, hrefer]
  refine Outcome.bind_ok.2 ⟨[(⟨47, 50, 4, 2, 4, 5⟩, .inPlace, some "variable")], by decide +kernel,
    Outcome.bind_ok.2 ⟨⟨shadowerScopes.nodes.take 1, shadowerScopes.placed.take 1⟩,
      by decide +kernel, ?_⟩⟩
  refine Outcome.bind_ok.2 ⟨⟨shadowerScopes.nodes.take 3, shadowerScopes.placed⟩,
    by decide +kernel, Outcome.bind_ok.2 ⟨⟨shadowerScopes.nodes.take 4, shadowerScopes.placed⟩,
      by decide +kernel, ?_⟩⟩
  refine Outcome.bind_ok.2 ⟨before, by decide +kernel, Outcome.bind_ok.2 ⟨shadowerScopes, ?_, rfl⟩⟩
  exact Outcome.bind_ok.2 ⟨"foo", by decide +kernel, hinsert⟩

def shadowedMap : RepoMap where
  tree := (pairOf shadower callee).tree
  scopeMaps := [({ names := ["a.py"] }, shadowerScopes), ({ names := ["b.py"] }, calleeScopes)]
  imports := [({ names := ["a.py"] }, [⟨⟨["b"], ["foo"]⟩, .inRepo, { names := ["a.py"] },
    some { names := ["b.py"] }, [2]⟩]), ({ names := ["b.py"] }, [])]
  missing := [({ names := ["a.py"] }, []), ({ names := ["b.py"] }, [])]
  resolved := [({ names := ["a.py"] }, ["foo"])]
  noted := ["a.py::2"]
  graph := ⟨["a.py::2", "b.py::1"], [(("a.py::2", "b.py::1"), ())]⟩

theorem build_shadower {readings : List Reading}
    (hfound : Reading.find readings shadower.source = shadower ∧
      Reading.find readings callee.source = callee) :
    build (pairOf shadower callee) readings = .ok shadowedMap := by
  have hmaps : (pairOf shadower callee).tree.sources.mapM
      (scopeMapOf (pairOf shadower callee).tree readings) = .ok shadowedMap.scopeMaps :=
    scopeMaps_pairOf hfound scopeMap_shadower scopeMap_callee
  rw [build, unlinked, hmaps]
  decide

/-- The second function of `a.py` has an edge to `foo` in `b.py`.  The import in the first function
lists it, and the second function does not see this import: no reference in it leads there. -/
theorem backed_iff_sees_shadowed :
    let w := pairOf shadower callee
    let a : FilePath := { names := ["a.py"] }
    let b : FilePath := { names := ["b.py"] }
    build w [shadower, callee] = .ok shadowedMap ∧ shadowedMap.HasEdge a 2 b 1 ∧
      (∃ scopes m, HasScopes w [shadower, callee] a scopes ∧
        StemsFrom w [shadower, callee] a scopes m 2 b 1) ∧
      (∃ i, 2 ∈ i.refScopes ∧
        FileImport.ofStatement w a shadowerScopes { names := ["foo"], source := "b" } = .ok [i]) ∧
      ¬ shadowerScopes.Backs 2 3 ∧ ⟨3, .refToImport⟩ ∉ shadowerScopes.links 5 := by
  intro w a b
  obtain ⟨hlisted, hedges⟩ := backed_iff_sees w [shadower, callee]
  have htree := proper_pairOf shadower callee
  have hbuild := build_shadower (find_pair (a := shadower) (b := callee) (by decide))
  have ha : a.Proper := htree.paths _ List.mem_cons_self
  have hb : b.Proper := htree.paths _ (List.mem_cons_of_mem _ List.mem_cons_self)
  have hedge : shadowedMap.HasEdge a 2 b 1 := by
    show (_, _) ∈ _
    decide
  have himports : FileImport.ofStatement w a shadowerScopes { names := ["foo"], source := "b" }
      = .ok [⟨⟨["b"], ["foo"]⟩, .inRepo, a, some b, [2]⟩] := by decide
  obtain ⟨hbacks, -, -, helse⟩ := hlisted shadower shadowerScopes scopeMap_shadower a 3 _ _ rfl
    himports _ List.mem_cons_self 2 List.mem_cons_self
  have hunseen : ¬ shadowerScopes.Sees 2 3 := by
    have hchain : shadowerScopes.outward 2 = [2, 0] := by
      rw [ScopeMap.outward_of_some (p := 0) rfl, if_pos (by decide), ScopeMap.outward_of_none rfl]
    unfold ScopeMap.Sees
    rw [hchain]
    decide
  refine ⟨hbuild, hedge, ?_, ⟨_, List.mem_cons_self, himports⟩, ?_, ?_⟩
  · exact (hedges _ htree hbuild a 2 b 1 ha hb).1.1 hedge
  · exact fun h => hunseen (hbacks.1 h).1
  · exact (helse hunseen 5 (by decide)).1

end RepoMap

end CodeAtlas

import CodeAtlas.Proofs.Outcome
import CodeAtlas.Repo.Import

/-!
# The files of the modules that a statement imports

The names of an import are resolved one after the other.  A module that is on one of the lists is not
looked for among the files, and its import is left with the file that was found last, which is the
file of another module.  So an import has the file of its own module, and a file only if the module is
one of the repository, unless a listed module stands behind one of the repository.

Main results:
  * `FileImport.classify_ok`: the sort of a module and the file found for it;
  * `FileImport.resolveAll_found`: the files found for names in a row;
  * `FileImport.ofStatement_found`: which imports of a statement have the file of their own module.
-/

namespace CodeAtlas.FileImport

variable {w : Setting} {file : FilePath} {g : ScopeMap} {before : Option FilePath}

/-! ## §1. One module. -/

/-- Is the module on one of the lists?  No file is looked for then. -/
def isListed (i : FileImport) : Bool :=
  i.sort = .system || i.sort = .thirdParty

/-- The file that a tree has for the module of an import. -/
def ownFile (tree : FileTree) (i : FileImport) : Option FilePath :=
  tree.find? i.name.path.parts

/-- An import of a dotted name that was told apart in this way. -/
structure Classified (w : Setting) (before : Option FilePath) (i : FileImport) : Prop where
  /-- A listed module is left with the file that was found before. -/
  found : i.found = if i.isListed then before else ownFile w.tree i
  /-- A module is one of the repository if it has a file there and is on no list. -/
  inRepo : i.sort = .inRepo ↔ i.isListed = false ∧ ownFile w.tree i ≠ none
  /-- The lists are asked for the first part of the name. -/
  listed : i.isListed = true ↔
    w.system.has (.str i.name.root) = .ok true ∨ w.thirdParty.has (.str i.name.root) = .ok true

theorem classify_ok {i : FileImport} (h : classify w before i.name = .ok (i.sort, i.found)) :
    Classified w before i := by
  obtain ⟨name, sort, file, found, refScopes⟩ := i
  unfold classify at h
  rw [Outcome.bind_ok] at h
  obtain ⟨system, hsystem, h⟩ := h
  cases system with
  | true =>
    cases Outcome.pure_ok.1 h
    exact ⟨rfl, by simp [isListed], by simp [isListed, hsystem]⟩
  | false =>
    rw [if_neg (by simp), Outcome.bind_ok] at h
    obtain ⟨thirdParty, hthirdParty, h⟩ := h
    cases thirdParty with
    | true =>
      cases Outcome.pure_ok.1 h
      exact ⟨rfl, by simp [isListed], by simp [isListed, hthirdParty]⟩
    | false =>
      -- only now a file is looked for
      rw [if_neg (by simp)] at h
      cases hfile : w.tree.find? name.path.parts with
      | none =>
        rw [hfile] at h
        cases Outcome.pure_ok.1 h
        exact ⟨hfile.symm, by simp [isListed, ownFile, hfile],
          by simp [isListed, hsystem, hthirdParty]⟩
      | some path =>
        rw [hfile] at h
        cases Outcome.pure_ok.1 h
        exact ⟨hfile.symm, by simp [isListed, ownFile, hfile],
          by simp [isListed, hsystem, hthirdParty]⟩

/-- A list that can be searched answers. -/
theorem exists_has {l : ModuleList} (h : l.value.members?.isSome = true) (name : Json) :
    ∃ answer, l.has name = .ok answer := by
  obtain ⟨items, hitems⟩ := Option.isSome_iff_exists.1 h
  unfold ModuleList.has
  rw [hitems]
  exact ⟨_, rfl⟩

/-- Where both lists can be searched every module is told apart. -/
theorem exists_classify (hsystem : w.system.value.members?.isSome = true)
    (hthirdParty : w.thirdParty.value.members?.isSome = true) (before : Option FilePath)
    (n : Namespace) : ∃ answer, classify w before n = .ok answer := by
  obtain ⟨system, hs⟩ := exists_has hsystem (.str n.root)
  obtain ⟨thirdParty, ht⟩ := exists_has hthirdParty (.str n.root)
  unfold classify
  rw [hs, ht]
  cases system with
  | true => exact ⟨_, rfl⟩
  | false =>
    cases thirdParty with
    | true => exact ⟨_, rfl⟩
    | false =>
      cases w.tree.find? n.path.parts with
      | none => exact ⟨_, rfl⟩
      | some path => exact ⟨_, rfl⟩

/-! ## §2. Modules in a row. -/

/-- The last of the imports whose file was looked for. -/
def lastSought (imports : List FileImport) : Option FileImport :=
  (imports.filter fun j => !j.isListed).getLast?

/-- The file that was found last when some imports have been resolved. -/
def lastFound (tree : FileTree) (before : Option FilePath) (imports : List FileImport) :
    Option FilePath :=
  (lastSought imports).elim before (ownFile tree)

theorem lastSought_cons (i : FileImport) (imports : List FileImport) :
    lastSought (i :: imports)
      = (lastSought imports).or (if i.isListed then none else some i) := by
  unfold lastSought
  cases hlisted : i.isListed with
  | true => simp [hlisted]
  | false =>
    rw [List.filter_cons_of_pos (by simp [hlisted]), List.getLast?_cons]
    cases (imports.filter fun j => !j.isListed).getLast? with
    | none => rfl
    | some j => rfl

theorem lastFound_cons (tree : FileTree) (before : Option FilePath) (i : FileImport)
    (imports : List FileImport) :
    lastFound tree before (i :: imports)
      = lastFound tree (if i.isListed then before else ownFile tree i) imports := by
  unfold lastFound
  rw [lastSought_cons]
  cases lastSought imports with
  | some j => rfl
  | none =>
    cases i.isListed with
    | true => rfl
    | false => rfl

theorem mem_of_lastSought {imports : List FileImport} {j : FileImport}
    (h : lastSought imports = some j) : j ∈ imports ∧ j.isListed = false := by
  have hmem := List.mem_filter.1 (List.mem_of_getLast? h)
  exact ⟨hmem.1, by simpa using hmem.2⟩

/-- **Names in a row.**  Each of them is told apart with the file at hand that the ones before it have
left. -/
theorem resolveAll_found {names : List Namespace} {imports : List FileImport}
    (h : resolveAll w file g before names = .ok imports) :
    imports.map (·.name) = names ∧ ∀ earlier i later, imports = earlier ++ i :: later →
      Classified w (lastFound w.tree before earlier) i := by
  induction names generalizing before imports with
  | nil =>
    cases h
    refine ⟨rfl, ?_⟩
    intro earlier i later hsplit
    exact absurd hsplit (by simp)
  | cons n names ih =>
    rw [resolveAll, Outcome.bind_ok] at h
    obtain ⟨⟨sort, found⟩, hsort, h⟩ := h
    rw [Outcome.bind_ok] at h
    obtain ⟨others, hothers, h⟩ := h
    rw [← Outcome.pure_ok.1 h]
    obtain ⟨hnames, hrow⟩ := ih hothers
    have hfirst : Classified w before ⟨n, sort, file, found, scopesReferringTo g n.child⟩ :=
      classify_ok hsort
    refine ⟨by rw [List.map_cons, hnames], ?_⟩
    intro earlier i later hsplit
    cases earlier with
    | nil =>
      obtain ⟨rfl, -⟩ := List.cons.inj hsplit
      exact hfirst
    | cons first earlier =>
      obtain ⟨rfl, hrest⟩ := List.cons.inj hsplit
      rw [lastFound_cons, ← hfirst.found]
      exact hrow earlier i later hrest

theorem exists_resolveAll (hsystem : w.system.value.members?.isSome = true)
    (hthirdParty : w.thirdParty.value.members?.isSome = true) (before : Option FilePath)
    (names : List Namespace) : ∃ imports, resolveAll w file g before names = .ok imports := by
  induction names generalizing before with
  | nil => exact ⟨[], rfl⟩
  | cons n names ih =>
    obtain ⟨⟨sort, found⟩, hsort⟩ := exists_classify hsystem hthirdParty before n
    obtain ⟨others, hothers⟩ := ih found
    exact ⟨_, Outcome.bind_ok.2 ⟨_, hsort, Outcome.bind_ok.2 ⟨others, hothers, rfl⟩⟩⟩

/-! ## §3. Imports with files of their own. -/

/-- The import has a file if its module is one of the repository and only then, and it is the file
that the tree has for this module. -/
def FindsOwn (tree : FileTree) (i : FileImport) : Prop :=
  (i.found ≠ none ↔ i.sort = .inRepo) ∧ (i.sort = .inRepo → i.found = ownFile tree i)

/-- The module of the import is on a list, and the last import before it whose file was looked for is
one of the repository. -/
def Inherits (earlier : List FileImport) (i : FileImport) : Prop :=
  i.isListed = true ∧ ∃ j, lastSought earlier = some j ∧ j.sort = .inRepo

/-- A module on no list has its own file or none. -/
theorem Classified.findsOwn_of_not_listed {i : FileImport} (h : Classified w before i)
    (hlisted : i.isListed = false) : FindsOwn w.tree i := by
  have hfound : i.found = ownFile w.tree i := by rw [h.found, hlisted]; rfl
  refine ⟨?_, fun _ => hfound⟩
  rw [hfound, h.inRepo]
  simp [hlisted]

/-- A module on a list should have no file, and has the one that was found before. -/
theorem Classified.findsOwn_of_listed {i : FileImport} (h : Classified w before i)
    (hlisted : i.isListed = true) : FindsOwn w.tree i ↔ before = none := by
  have hfound : i.found = before := by rw [h.found, hlisted]; rfl
  have hsort : i.sort ≠ .inRepo := by
    intro hsort
    have := (h.inRepo.1 hsort).1
    rw [hlisted] at this
    cases this
  unfold FindsOwn
  rw [hfound]
  simp [hsort]

/-- The file that was found last is one of an import of the repository. -/
theorem lastFound_eq_none {tree : FileTree} {earlier : List FileImport}
    (h : ∀ j ∈ earlier, j.isListed = false → (j.sort = .inRepo ↔ ownFile tree j ≠ none)) :
    lastFound tree none earlier = none ↔
      ¬ ∃ j, lastSought earlier = some j ∧ j.sort = .inRepo := by
  unfold lastFound
  cases hlast : lastSought earlier with
  | none => simp
  | some j =>
    obtain ⟨hmem, hlisted⟩ := mem_of_lastSought hlast
    simp [h j hmem hlisted]

/-- **Which imports have files of their own.**  A statement is resolved wherever both lists can be
searched, and name by name.  An import has the file of its own module, and a file only if the module
is one of the repository, unless the module is on a list and stands behind one of the repository;
then it has the file of that one.  All imports from one module have files of their own. -/
theorem ofStatement_found (w : Setting) (file : FilePath) (g : ScopeMap) (s : ImportStmt) :
    (w.system.value.members?.isSome = true → w.thirdParty.value.members?.isSome = true →
      ∃ imports, ofStatement w file g s = .ok imports)
    ∧ ∀ imports, ofStatement w file g s = .ok imports →
      imports.map (·.name) = namespacesOf s
      ∧ (∀ earlier i later, imports = earlier ++ i :: later →
          (FindsOwn w.tree i ↔ ¬ Inherits earlier i)
          ∧ (Inherits earlier i → ∃ j ∈ earlier, j.sort = .inRepo ∧ i.found = ownFile w.tree j
              ∧ i.found ≠ none))
      ∧ (s.source ≠ "" → ∀ i ∈ imports, FindsOwn w.tree i) := by
  refine ⟨fun hsystem hthirdParty => exists_resolveAll hsystem hthirdParty none _, ?_⟩
  intro imports h
  obtain ⟨hnames, hrow⟩ := resolveAll_found h
  have hall : ∀ i ∈ imports, ∃ before, Classified w before i := by
    intro i hi
    obtain ⟨earlier, later, hsplit⟩ := List.append_of_mem hi
    exact ⟨_, hrow earlier i later hsplit⟩
  have hexact : ∀ earlier i later, imports = earlier ++ i :: later →
      (FindsOwn w.tree i ↔ ¬ Inherits earlier i) := by
    intro earlier i later hsplit
    have hi := hrow earlier i later hsplit
    cases hlisted : i.isListed with
    | false => simp [hi.findsOwn_of_not_listed hlisted, Inherits, hlisted]
    | true =>
      rw [hi.findsOwn_of_listed hlisted, lastFound_eq_none]
      · simp [Inherits, hlisted]
      · intro j hj hjlisted
        obtain ⟨before, hclass⟩ := hall j (by rw [hsplit]; exact List.mem_append_left _ hj)
        simp [hclass.inRepo, hjlisted]
  refine ⟨hnames, fun earlier i later hsplit => ⟨hexact earlier i later hsplit, ?_⟩, ?_⟩
  · rintro ⟨hlisted, j, hlast, hsort⟩
    obtain ⟨hmem, -⟩ := mem_of_lastSought hlast
    have hfound : i.found = ownFile w.tree j := by
      rw [(hrow earlier i later hsplit).found, if_pos hlisted, lastFound, hlast]
      rfl
    obtain ⟨before, hclass⟩ := hall j (by rw [hsplit]; exact List.mem_append_left _ hmem)
    exact ⟨j, hmem, hsort, hfound, hfound ▸ (hclass.inRepo.1 hsort).2⟩
  · intro hsource i hi
    -- all names begin with the name of the module, so all of them are listed or none is
    have hroots : ∀ i ∈ imports, i.name.root = (Namespace.of s.source "").root := by
      intro i hi
      have hname : i.name ∈ namespacesOf s := hnames ▸ List.mem_map_of_mem hi
      rw [namespacesOf, if_neg hsource] at hname
      obtain ⟨name, -, heq⟩ := List.mem_map.1 hname
      rw [← heq]
      rfl
    obtain ⟨earlier, later, hsplit⟩ := List.append_of_mem hi
    rw [hexact earlier i later hsplit]
    rintro ⟨hlisted, j, hlast, -⟩
    obtain ⟨hj, hjlisted⟩ := mem_of_lastSought hlast
    have hj : j ∈ imports := by rw [hsplit]; exact List.mem_append_left _ hj
    obtain ⟨_, hiclass⟩ := hall i hi
    obtain ⟨_, hjclass⟩ := hall j hj
    have hsame := hiclass.listed.1 hlisted
    rw [hroots i hi, ← hroots j hj, ← hjclass.listed, hjlisted] at hsame
    cases hsame

/-- A repository with a file `b.py`, and the lists at hand. -/
def oneModule : Setting :=
  ⟨⟨["repo"], [], [⟨["b.py"], ["b.py"], some ByteArray.empty⟩]⟩, .system, .thirdParty⟩

/-- `import b, pytest`: the second module is one of the third parties, and its import has the file of
the first. -/
theorem ofStatement_found_behind :
    let file : FilePath := { names := ["a.py"] }
    let g : ScopeMap :=
      { nodes := #[{ range := .ofRows 0 1, item := .scope }], placed := [(.ofRows 0 1, 0)] }
    ∃ first second, ofStatement oneModule file g { names := ["b", "pytest"] } = .ok [first, second]
      ∧ first.sort = .inRepo ∧ second.sort = .thirdParty
      ∧ first.found = some { names := ["b.py"] } ∧ second.found = some { names := ["b.py"] }
      ∧ FindsOwn oneModule.tree first ∧ ¬ FindsOwn oneModule.tree second := by
  intro file g
  obtain ⟨hreturns, hexact⟩ := ofStatement_found oneModule file g { names := ["b", "pytest"] }
  obtain ⟨imports, himports⟩ := hreturns rfl rfl
  have hfirst : classify oneModule none (Namespace.of "b" "")
      = .ok (.inRepo, some { names := ["b.py"] }) := by rfl
  have hsecond : classify oneModule (some { names := ["b.py"] }) (Namespace.of "pytest" "")
      = .ok (.thirdParty, some { names := ["b.py"] }) := by rfl
  have hrow : ofStatement oneModule file g { names := ["b", "pytest"] } = .ok
      [⟨Namespace.of "b" "", .inRepo, file, some { names := ["b.py"] },
          scopesReferringTo g (Namespace.of "b" "").child⟩,
        ⟨Namespace.of "pytest" "", .thirdParty, file, some { names := ["b.py"] },
          scopesReferringTo g (Namespace.of "pytest" "").child⟩] := by
    show resolveAll oneModule file g none [Namespace.of "b" "", Namespace.of "pytest" ""] = _
    rw [resolveAll, hfirst]
    show (resolveAll oneModule file g (some { names := ["b.py"] }) [Namespace.of "pytest" ""]
      >>= fun others => _) = _
    rw [resolveAll, hsecond]
    rfl
  obtain rfl := Except.ok.inj (hrow.symm.trans himports)
  obtain ⟨-, hown, -⟩ := hexact _ himports
  refine ⟨_, _, hrow, rfl, rfl, rfl, rfl, ?_, ?_⟩
  · rw [(hown [] _ _ rfl).1]
    rintro ⟨hlisted, -⟩
    cases hlisted
  · rw [(hown [_] _ [] rfl).1, Classical.not_not]
    exact ⟨rfl, _, rfl, rfl⟩

end CodeAtlas.FileImport

import CodeAtlas.Proofs.Repo.Links

/-!
# Missing and resolved imports

While the edges of a repository are added, two accounts are kept of each file.  The missing imports
are all of its imports at first, and an import is struck off by its text, as often as this text
stands there.  The resolved names grow by one name with each edge that is asked for, whether it is
a new one or not.  What a row of steps does to both accounts is told by its notes, one for each
step, in the order of the steps.

Main results:
  * `RepoMap.addTie_notes`: the note of one step;
  * `RepoMap.linkFile_notes`, `RepoMap.links_note`: the notes of one file, and those of all files;
  * `RepoMap.notesAbout_files`: the notes about a file are those of its own imports;
  * `RepoMap.accounts_exact`: what is missing and what is resolved in the map of a repository.
-/

namespace CodeAtlas.RepoMap

/-! ## §1. Notes. -/

/-- What one step says about a file: the import with this text is not missing, and the exported name
is resolved. -/
structure Note where
  file : FilePath
  text : String
  name : String

/-- The notes about one file. -/
def notesAbout (file : FilePath) (notes : List Note) : List Note :=
  notes.filter fun n => n.file = file

theorem notesAbout_append (file : FilePath) (notes more : List Note) :
    notesAbout file (notes ++ more) = notesAbout file notes ++ notesAbout file more :=
  List.filter_append ..

/-- The resolved names of a file; a file without an entry has none. -/
def resolvedOf (g : RepoMap) (file : FilePath) : List String :=
  (Assoc.get? file g.resolved).getD []

/-- A map that has come from another one by steps with these notes, and is over the same files. -/
structure Notes (notes : List Note) (g grown : RepoMap) : Prop where
  tree : grown.tree = g.tree
  scopeMaps : grown.scopeMaps = g.scopeMaps
  missing : grown.missing = g.missing.map fun m =>
    (m.1, m.2.filter fun text => text ∉ (notesAbout m.1 notes).map (·.text))
  resolved : ∀ file,
    grown.resolvedOf file = g.resolvedOf file ++ (notesAbout file notes).map (·.name)

theorem Notes.none (g : RepoMap) : Notes [] g g where
  tree := rfl
  scopeMaps := rfl
  missing := by simp [notesAbout]
  resolved := by simp [notesAbout]

theorem Notes.both {notes more : List Note} {g next grown : RepoMap} (h : Notes notes g next)
    (h' : Notes more next grown) : Notes (notes ++ more) g grown where
  tree := h'.tree.trans h.tree
  scopeMaps := h'.scopeMaps.trans h.scopeMaps
  missing := by
    rw [h'.missing, h.missing, List.map_map]
    refine List.map_congr_left fun m _ => ?_
    simp [notesAbout_append, List.filter_filter, Bool.and_comm]
  resolved := by
    intro file
    rw [h'.resolved, h.resolved, List.append_assoc, notesAbout_append, List.map_append]

/-! ## §2. One step. -/

theorem ensureNode_accounts {g grown : RepoMap} {id noting : String}
    (h : g.ensureNode id noting = .ok grown) :
    grown.missing = g.missing ∧ grown.resolved = g.resolved := by
  obtain ⟨-, rfl⟩ | ⟨-, rfl⟩ := ensureNode_cases h
  · exact ⟨rfl, rfl⟩
  · exact ⟨rfl, rfl⟩

theorem missing_dropMissing (g : RepoMap) (file : FilePath) (text : String) :
    (g.dropMissing file text).missing = g.missing.map fun m =>
      (m.1, if m.1 = file then m.2.filter (· ≠ text) else m.2) := by
  unfold dropMissing Assoc.modify
  refine List.map_congr_left fun m _ => ?_
  by_cases hfile : m.1 = file
  · simp [hfile]
  · simp [hfile]

theorem resolvedOf_noteResolved (g : RepoMap) (file : FilePath) (name : String)
    (other : FilePath) :
    (g.noteResolved file name).resolvedOf other =
      if file = other then g.resolvedOf other ++ [name] else g.resolvedOf other := by
  unfold noteResolved resolvedOf
  rw [Assoc.get?_put]
  by_cases hfile : file = other
  · simp [hfile]
  · simp [hfile]

/-- **One step.**  A tie strikes its import off the missing ones, and adds the exported name to the
resolved ones. -/
theorem addTie_notes {g grown : RepoMap} {file : FilePath} {t : Tie} {refScope : Nat}
    (h : g.addTie file t refScope = .ok grown) :
    Notes [⟨file, t.source.name.text, t.name⟩] g grown := by
  have hgrows := addTie_grows h
  simp only [addTie, Outcome.bind_ok, RepoPlace.write_ok] at h
  obtain ⟨_, -, g₁, hsource, _, -, g₂, htarget, h⟩ := h
  obtain ⟨hmissing₁, hresolved₁⟩ := ensureNode_accounts hsource
  obtain ⟨hmissing₂, hresolved₂⟩ := ensureNode_accounts htarget
  cases Outcome.pure_ok.1 h
  refine ⟨hgrows.tree, hgrows.scopeMaps, ?_, ?_⟩
  · have hdropped : g₂.missing = (g₁.dropMissing file t.source.name.text).missing := hmissing₂
    show g₂.missing = _
    rw [hdropped, missing_dropMissing, hmissing₁]
    refine List.map_congr_left fun m _ => ?_
    by_cases hfile : m.1 = file
    · simp [notesAbout, hfile]
    · simp [notesAbout, hfile, Ne.symm hfile]
  · intro other
    have hnoted : g₂.resolvedOf other = (g₁.noteResolved file t.name).resolvedOf other := by
      rw [resolvedOf, hresolved₂]
      rfl
    have hbefore : g₁.resolvedOf other = g.resolvedOf other := by
      rw [resolvedOf, hresolved₁]
      rfl
    show g₂.resolvedOf other = _
    rw [hnoted, resolvedOf_noteResolved, hbefore]
    by_cases hfile : file = other
    · simp [notesAbout, hfile]
    · simp [notesAbout, hfile]

/-! ## §3. Steps in a row. -/

/-- The notes of steps in a row are those of each of them, if it is over the same files. -/
theorem foldlM_notes {α : Type} {step : RepoMap → α → Outcome RepoMap} (notesOf : α → List Note)
    {g grown : RepoMap}
    (hstep : ∀ a next after, next.tree = g.tree → next.scopeMaps = g.scopeMaps →
      step next a = .ok after → Notes (notesOf a) next after)
    {xs : List α} (h : xs.foldlM step g = .ok grown) : Notes (xs.flatMap notesOf) g grown := by
  refine Outcome.foldlM_rule (fun done next => Notes (done.flatMap notesOf) g next) ?_
    (Notes.none g) h
  intro done a next after hdone hafter
  rw [List.flatMap_append, List.flatMap_singleton]
  exact hdone.both (hstep a next after hdone.tree hdone.scopeMaps hafter)

/-- The exports that an import is tied to, in their row. -/
def matching (g : RepoMap) (i : FileImport) : List (String × Nat) :=
  match g.tiesOf i with
  | .ok ties => ties.map fun t => (t.name, t.scope)
  | .error _ => []

/-- The notes about a file with these imports: for each import from the repository, each export
that matches it and each scope that refers to it. -/
def notesOf (matching : FileImport → List (String × Nat)) (file : FilePath)
    (imports : List FileImport) : List Note :=
  (imports.filter fun i => i.sort = .inRepo).flatMap fun i =>
    (matching i).flatMap fun e => i.refScopes.map fun _ => ⟨file, i.name.text, e.1⟩

/-- The ties of an import are noted by the exports that match it. -/
theorem flatMap_tiesOf {g : RepoMap} {i : FileImport} {ties : List Tie}
    (h : g.tiesOf i = .ok ties) (file : FilePath) :
    (ties.flatMap fun t => t.source.refScopes.map fun _ =>
        (⟨file, t.source.name.text, t.name⟩ : Note)) =
      (g.matching i).flatMap fun e => i.refScopes.map fun _ => ⟨file, i.name.text, e.1⟩ := by
  rw [matching, h]
  dsimp only
  rw [List.flatMap_map]
  refine List.flatMap_congr fun t ht => ?_
  obtain ⟨rfl, -⟩ := (mem_tiesOf h).1 ht
  rfl

/-- **One file.** -/
theorem linkFile_notes {g grown : RepoMap} {file : FilePath} {imports : List FileImport}
    (h : g.linkFile file imports = .ok grown) :
    Notes (notesOf g.matching file imports) g grown := by
  rw [linkFile, Outcome.bind_ok] at h
  obtain ⟨ties, hties, h⟩ := h
  rw [tiesOfFile, Outcome.bind_ok] at hties
  obtain ⟨rows, hrows, hties⟩ := hties
  cases Outcome.pure_ok.1 hties
  have hnotes := foldlM_notes (fun t : Tie => t.source.refScopes.flatMap fun _ =>
      [(⟨file, t.source.name.text, t.name⟩ : Note)])
    (fun t _ _ _ _ ht => foldlM_notes _ (fun _ _ _ _ _ => addTie_notes) ht) h
  -- the ties stand in rows, one for each import from the repository
  have hall : rows.map (fun row => row.flatMap fun t => t.source.refScopes.map fun _ =>
        (⟨file, t.source.name.text, t.name⟩ : Note)) =
      (imports.filter fun i => i.sort = .inRepo).map fun i => (g.matching i).flatMap fun e =>
        i.refScopes.map fun _ => ⟨file, i.name.text, e.1⟩ :=
    Outcome.map_of_mapM (fun _ _ hrow => flatMap_tiesOf hrow file) hrows
  simp only [← List.map_eq_flatMap] at hnotes
  rw [← List.flatMap_id, List.flatMap_assoc] at hnotes
  rw [notesOf, List.flatMap_def, ← hall, ← List.flatMap_def]
  exact hnotes

/-- The ties of an import depend on the files alone. -/
theorem tiesOf_of_same {g next : RepoMap} (htree : next.tree = g.tree)
    (hmaps : next.scopeMaps = g.scopeMaps) : next.tiesOf = g.tiesOf := by
  funext i
  unfold tiesOf scopeMap
  rw [htree, hmaps]

theorem matching_of_same {g next : RepoMap} (htree : next.tree = g.tree)
    (hmaps : next.scopeMaps = g.scopeMaps) : next.matching = g.matching := by
  funext i
  rw [matching, matching, tiesOf_of_same htree hmaps]

/-- **All files.** -/
theorem links_note {g grown : RepoMap} {files : List (FilePath × List FileImport)}
    (h : files.foldlM (fun g (file, imports) => g.linkFile file imports) g = .ok grown) :
    Notes (files.flatMap fun f => notesOf g.matching f.1 f.2) g grown := by
  refine foldlM_notes _ ?_ h
  rintro ⟨file, imports⟩ next after htree hmaps hnext
  rw [← matching_of_same htree hmaps]
  exact linkFile_notes hnext

/-- If all files can be linked, their imports from the repository have ties. -/
theorem exists_tiesOf {g grown : RepoMap} {files : List (FilePath × List FileImport)}
    (h : files.foldlM (fun g (file, imports) => g.linkFile file imports) g = .ok grown)
    {file : FilePath} {imports : List FileImport} (hfile : (file, imports) ∈ files)
    {i : FileImport} (hi : i ∈ imports) (hsort : i.sort = .inRepo) :
    ∃ ties, g.tiesOf i = .ok ties := by
  have hall := Outcome.foldlM_rule (fun done next => next.tree = g.tree ∧
    next.scopeMaps = g.scopeMaps ∧ ∀ f ∈ done, ∃ ties, g.tiesOfFile f.2 = .ok ties) ?_
    ⟨rfl, rfl, by simp⟩ h
  · obtain ⟨ties, hties⟩ := hall.2.2 _ hfile
    obtain ⟨rows, hrows, -⟩ := Outcome.bind_ok.1 hties
    obtain ⟨row, -, hrow⟩ := Outcome.ok_of_mapM hrows
      (List.mem_filter.2 ⟨hi, decide_eq_true hsort⟩)
    exact ⟨row, hrow⟩
  · rintro done ⟨file, imports⟩ next after ⟨htree, hmaps, hdone⟩ hafter
    have hnotes := linkFile_notes hafter
    refine ⟨hnotes.tree.trans htree, hnotes.scopeMaps.trans hmaps, ?_⟩
    intro f hf
    obtain hf | hf := List.mem_append.1 hf
    · exact hdone f hf
    · obtain ⟨ties, hties, -⟩ := Outcome.bind_ok.1 hafter
      rw [tiesOfFile, tiesOf_of_same htree hmaps] at hties
      rw [List.mem_singleton.1 hf]
      exact ⟨ties, hties⟩

/-! ## §4. The notes about a file. -/

theorem file_of_mem_notesOf {matching : FileImport → List (String × Nat)} {file : FilePath}
    {imports : List FileImport} {n : Note} (h : n ∈ notesOf matching file imports) :
    n.file = file := by
  obtain ⟨i, -, h⟩ := List.mem_flatMap.1 h
  obtain ⟨e, -, h⟩ := List.mem_flatMap.1 h
  obtain ⟨s, -, rfl⟩ := List.mem_map.1 h
  rfl

theorem notesAbout_self (matching : FileImport → List (String × Nat)) (file : FilePath)
    (imports : List FileImport) :
    notesAbout file (notesOf matching file imports) = notesOf matching file imports :=
  List.filter_eq_self.2 fun _ hn => decide_eq_true (file_of_mem_notesOf hn)

/-- There are no notes about a file that is not there. -/
theorem notesAbout_absent (matching : FileImport → List (String × Nat))
    {files : List (FilePath × List FileImport)} {file : FilePath}
    (h : file ∉ files.map (·.1)) :
    notesAbout file (files.flatMap fun f => notesOf matching f.1 f.2) = [] := by
  refine List.filter_eq_nil_iff.2 fun n hn hfile => h ?_
  obtain ⟨f, hf, hn⟩ := List.mem_flatMap.1 hn
  exact List.mem_map.2 ⟨f, hf, (file_of_mem_notesOf hn).symm.trans (of_decide_eq_true hfile)⟩

/-- Where each file is there once, the notes about it are those of its own imports. -/
theorem notesAbout_files (matching : FileImport → List (String × Nat))
    {files : List (FilePath × List FileImport)} (honce : (files.map (·.1)).Nodup)
    {file : FilePath} {imports : List FileImport} (h : (file, imports) ∈ files) :
    notesAbout file (files.flatMap fun f => notesOf matching f.1 f.2) =
      notesOf matching file imports := by
  induction files with
  | nil => cases h
  | cons f rest ih =>
    rw [List.map_cons, List.nodup_cons] at honce
    rw [List.flatMap_cons, notesAbout_append]
    obtain rfl | h := List.mem_cons.1 h
    · rw [notesAbout_self, notesAbout_absent matching honce.1, List.append_nil]
    · have hne : f.1 ≠ file := by
        rintro rfl
        exact honce.1 (List.mem_map.2 ⟨_, h, rfl⟩)
      have hother : notesAbout file (notesOf matching f.1 f.2) = [] :=
        List.filter_eq_nil_iff.2 fun n hn hfile =>
          hne ((file_of_mem_notesOf hn).symm.trans (of_decide_eq_true hfile))
      rw [hother, ih honce.2 h, List.nil_append]

/-! ## §5. The accounts of the whole map. -/

/-- The exports that an import matches, in the row in which they are found.  They are those with the
imported name in the file found for its module; the opening file of a directory has none. -/
inductive Matches (w : FileImport.Setting) (readings : List Reading) (i : FileImport) :
    List (String × Nat) → Prop
  | unfound (hfind : w.tree.find? i.name.path.parts = none) : Matches w readings i []
  | opening {t : FilePath} (hfind : w.tree.find? i.name.path.parts = some t)
      (hopening : Text.contains "__init__.py" t.text = true) : Matches w readings i []
  | exported {t : FilePath} {scopes : ScopeMap} {exports : List (String × Nat)}
      (hfind : w.tree.find? i.name.path.parts = some t)
      (hopening : Text.contains "__init__.py" t.text = false)
      (hscopes : HasScopes w readings t scopes) (hexports : scopes.exports = .ok exports) :
      Matches w readings i (exports.filter fun e => e.1 = i.name.child)

/-- Some import from the repository with this text matches an export, and some scope refers to
it. -/
def Followed (matching : FileImport → List (String × Nat)) (imports : List FileImport)
    (text : String) : Prop :=
  ∃ i ∈ imports, i.sort = .inRepo ∧ i.name.text = text ∧ matching i ≠ [] ∧ i.refScopes ≠ []

instance (matching : FileImport → List (String × Nat)) (imports : List FileImport)
    (text : String) : Decidable (Followed matching imports text) :=
  inferInstanceAs (Decidable (∃ i ∈ imports, _))

theorem mem_texts_notesOf {matching : FileImport → List (String × Nat)} {file : FilePath}
    {imports : List FileImport} {text : String} :
    text ∈ (notesOf matching file imports).map (·.text) ↔ Followed matching imports text := by
  simp only [notesOf, Followed, List.map_flatMap, List.map_map, List.mem_flatMap, List.mem_map,
    List.mem_filter, decide_eq_true_eq, Function.comp_apply]
  constructor
  · rintro ⟨i, ⟨hi, hsort⟩, e, he, s, hs, htext⟩
    exact ⟨i, hi, hsort, htext, List.ne_nil_of_mem he, List.ne_nil_of_mem hs⟩
  · rintro ⟨i, hi, hsort, htext, hmatching, hscopes⟩
    obtain ⟨e, he⟩ := List.exists_mem_of_ne_nil _ hmatching
    obtain ⟨s, hs⟩ := List.exists_mem_of_ne_nil _ hscopes
    exact ⟨i, ⟨hi, hsort⟩, e, he, s, hs, htext⟩

variable {w : FileImport.Setting} {readings : List Reading} {g : RepoMap}

/-- Before the first edge, all imports are missing, and no name is resolved. -/
theorem accounts_unlinked (h : unlinked w readings = .ok g) :
    g.missing = g.imports.map (fun f => (f.1, f.2.map fun i => i.name.text)) ∧ g.resolved = [] := by
  rw [unlinked, Outcome.bind_ok] at h
  obtain ⟨scopeMaps, -, h⟩ := h
  rw [Outcome.bind_ok] at h
  obtain ⟨rows, -, h⟩ := h
  cases Outcome.pure_ok.1 h
  exact ⟨rfl, rfl⟩

/-- The imports are listed by the sources. -/
theorem keys_imports (h : unlinked w readings = .ok g) :
    g.imports.map (·.1) = w.tree.sources.map (·.filePath) := by
  rw [unlinked, Outcome.bind_ok] at h
  obtain ⟨scopeMaps, hmaps, h⟩ := h
  rw [Outcome.bind_ok] at h
  obtain ⟨rows, hrows, h⟩ := h
  cases Outcome.pure_ok.1 h
  have hrow : rows.map (·.1) = scopeMaps.map (·.1) := by
    refine Outcome.map_of_mapM ?_ hrows
    rintro ⟨file, scopes⟩ row hrow
    obtain ⟨imports, -, hrow⟩ := Outcome.bind_ok.1 hrow
    rw [← Outcome.pure_ok.1 hrow]
  exact hrow.trans (Outcome.map_of_mapM (fun _ _ => filePath_of_scopeMapOf) hmaps)

/-- The ties of an import are the exports that it matches. -/
theorem matches_of_tiesOf {g₀ : RepoMap} (htree : w.tree.Proper)
    (h : unlinked w readings = .ok g₀) {i : FileImport} {ties : List Tie}
    (hties : g₀.tiesOf i = .ok ties) : Matches w readings i (g₀.matching i) := by
  obtain ⟨hsame, -, hmaps, -⟩ := unlinked_ok h
  rw [matching, hties]
  obtain ⟨hfind, rfl⟩ | ⟨t, hfind, hopening, rfl⟩ |
    ⟨t, scopes, exports, hfind, hopening, hscopes, hexports, rfl⟩ := tiesOf_cases hties
  · exact .unfound (hsame ▸ hfind)
  · exact .opening (hsame ▸ hfind) hopening
  · have hrow : ((exports.filter fun e => e.1 = i.name.child).map fun e =>
        (⟨i, e.2, e.1, t⟩ : Tie)).map (fun t => (t.name, t.scope)) =
          exports.filter fun e => e.1 = i.name.child := by
      rw [List.map_map]
      exact List.map_id _
    dsimp only
    rw [hrow]
    exact .exported (hsame ▸ hfind) hopening ((scopeMap_iff htree hmaps).1 hscopes) hexports

/-- **The accounts of a repository are exact.**  Exactly the sources have an account.  Missing are
the texts of the imports of a file, in their order, but for those with a followed import; resolved
is one name for each import from the repository, each export that matches it and each scope that
refers to it, in this nesting.  Of other files nothing is noted. -/
theorem accounts_exact (w : FileImport.Setting) (readings : List Reading) (htree : w.tree.Proper)
    (g : RepoMap) (h : build w readings = .ok g) :
    g.missing.map (·.1) = w.tree.sources.map (·.filePath) ∧
    (∀ f scopes, HasScopes w readings f scopes → ∃ imports matching,
      FileImport.ofFile w f scopes = .ok imports ∧
      (∀ i ∈ imports, i.sort = .inRepo → Matches w readings i (matching i)) ∧
      Assoc.get? f g.missing = some ((imports.map fun i => i.name.text).filter fun text =>
        ¬ Followed matching imports text) ∧
      g.resolvedOf f = (imports.filter fun i => i.sort = .inRepo).flatMap fun i =>
        (matching i).flatMap fun e => i.refScopes.map fun _ => e.1) ∧
    ∀ f, f ∉ w.tree.sources.map (·.filePath) → g.resolvedOf f = [] := by
  obtain ⟨g₀, hstart, hlinks⟩ := Outcome.bind_ok.1 h
  obtain ⟨-, -, -, himports⟩ := unlinked_ok hstart
  obtain ⟨hmissing, hresolved⟩ := accounts_unlinked hstart
  have hkeys := keys_imports hstart
  have honce : (g₀.imports.map (·.1)).Nodup := hkeys ▸ htree.nodup_sources
  have hnotes := links_note hlinks
  have hmissingKeys : g.missing.map (·.1) = g₀.imports.map (·.1) := by
    rw [hnotes.missing, hmissing, List.map_map, List.map_map]
    rfl
  have hnone : ∀ f, g₀.resolvedOf f = [] := by
    intro f
    rw [resolvedOf, hresolved]
    rfl
  refine ⟨hmissingKeys.trans hkeys, ?_, ?_⟩
  · intro f scopes hscopes
    obtain ⟨imports, hofFile⟩ := ofFile_of_build h hscopes
    have hfile := (himports f imports).2 ⟨scopes, hscopes, hofFile⟩
    have habout := notesAbout_files g₀.matching honce hfile
    refine ⟨imports, g₀.matching, hofFile, ?_, ?_, ?_⟩
    · intro i hi hsort
      obtain ⟨ties, hties⟩ := exists_tiesOf hlinks hfile hi hsort
      exact matches_of_tiesOf htree hstart hties
    · rw [Assoc.get?_eq_some (hmissingKeys ▸ honce), hnotes.missing, hmissing, List.map_map]
      refine List.mem_map.2 ⟨(f, imports), hfile, ?_⟩
      simp only [Function.comp_apply, habout, mem_texts_notesOf]
    · rw [hnotes.resolved, hnone, habout, List.nil_append]
      simp only [notesOf, List.map_flatMap, List.map_map]
      rfl
  · intro f hf
    rw [hnotes.resolved, hnone, notesAbout_absent _ (hkeys ▸ hf)]
    rfl

/-- The source of `a.py`, which imports `foo` from `b` twice and calls it twice.  It also imports
`bar`, which is not there. -/
def repeater : Reading :=
  ⟨"from b import foo, bar\nfrom b import foo\nfoo()\nfoo()\n".toUTF8, 0, 53,
    [⟨0, 22, "local.import.statement"⟩, ⟨5, 6, "local.import.module"⟩,
      ⟨14, 17, "local.import.name"⟩, ⟨19, 22, "local.import.name"⟩,
      ⟨23, 40, "local.import.statement"⟩, ⟨28, 29, "local.import.module"⟩,
      ⟨37, 40, "local.import.name"⟩, ⟨41, 44, "local.reference"⟩, ⟨47, 50, "local.reference"⟩]⟩

def repeaterScopes : ScopeMap where
  nodes := #[{ range := ⟨0, 53, 0, 0, 4, 0⟩, item := .scope },
    { range := ⟨0, 22, 0, 0, 0, 22⟩,
      item := .importStmt { names := ["foo", "bar"], source := "b" },
      links := [⟨0, .importToScope⟩] },
    { range := ⟨23, 40, 1, 0, 1, 17⟩, item := .importStmt { names := ["foo"], source := "b" },
      links := [⟨0, .importToScope⟩] },
    { range := ⟨41, 44, 2, 0, 2, 3⟩, item := .reference, name := "foo",
      links := [⟨1, .refToImport⟩, ⟨2, .refToImport⟩, ⟨0, .refToOrigin⟩] },
    { range := ⟨47, 50, 3, 0, 3, 3⟩, item := .reference, name := "foo",
      links := [⟨1, .refToImport⟩, ⟨2, .refToImport⟩, ⟨0, .refToOrigin⟩] }]
  placed := [(⟨0, 53, 0, 0, 4, 0⟩, 0)]

theorem scopeMap_repeater : repeater.scopeMap = .ok repeaterScopes := by
  have hrange : repeater.range = ⟨0, 53, 0, 0, 4, 0⟩ := by
    simp only [Reading.range, SourceRange.between, Source.pointAt_eq]
    decide +kernel
  have hroles : repeater.roles = [(⟨0, 22, 0, 0, 0, 22⟩, .importStmt),
      (⟨5, 6, 0, 5, 0, 6⟩, .importPart "module"), (⟨14, 17, 0, 14, 0, 17⟩, .importPart "name"),
      (⟨19, 22, 0, 19, 0, 22⟩, .importPart "name"), (⟨23, 40, 1, 0, 1, 17⟩, .importStmt),
      (⟨28, 29, 1, 5, 1, 6⟩, .importPart "module"), (⟨37, 40, 1, 14, 1, 17⟩, .importPart "name"),
      (⟨41, 44, 2, 0, 2, 3⟩, .reference), (⟨47, 50, 3, 0, 3, 3⟩, .reference)] := by
    simp only [Reading.roles, SourceRange.between, Source.pointAt_eq]
    decide +kernel
  rw [Reading.scopeMap, hrange, hroles]
  -- the maps before each of the references, which stand in the scope of the whole source
  let start : ScopeMap := ⟨repeaterScopes.nodes.take 1, repeaterScopes.placed⟩
  let first : ScopeMap := ⟨repeaterScopes.nodes.take 3, repeaterScopes.placed⟩
  let second : ScopeMap := ⟨repeaterScopes.nodes.take 4, repeaterScopes.placed⟩
  have hfirst : first.insertAll [.reference ⟨41, 44, 2, 0, 2, 3⟩ "foo"] = .ok second := by
    have hmeasure : (SourceRange.mk 41 44 2 0 2 3).rows.measure = .ok () := by decide +kernel
    have hat : first.scopeAt ⟨41, 44, 2, 0, 2, 3⟩ = 0 := by decide +kernel
    have hchain : first.outward 0 = [0] := by decide +kernel
    rw [ScopeMap.insertAll, ScopeMap.insert_known hmeasure hat hchain (by decide +kernel)]
    decide +kernel
  have hsecond : second.insertAll [.reference ⟨47, 50, 3, 0, 3, 3⟩ "foo"] = .ok repeaterScopes := by
    have hmeasure : (SourceRange.mk 47 50 3 0 3 3).rows.measure = .ok () := by decide +kernel
    have hat : second.scopeAt ⟨47, 50, 3, 0, 3, 3⟩ = 0 := by decide +kernel
    have hchain : second.outward 0 = [0] := by decide +kernel
    rw [ScopeMap.insertAll, ScopeMap.insert_known hmeasure hat hchain (by decide +kernel)]
    decide +kernel
  refine Outcome.bind_ok.2 ⟨[], rfl, Outcome.bind_ok.2 ⟨start, by decide +kernel, ?_⟩⟩
  refine Outcome.bind_ok.2 ⟨start, rfl, Outcome.bind_ok.2 ⟨first, by decide +kernel, ?_⟩⟩
  refine Outcome.bind_ok.2 ⟨first, rfl, Outcome.bind_ok.2 ⟨second, ?_, ?_⟩⟩
  · exact Outcome.bind_ok.2 ⟨"foo", by decide +kernel, hfirst⟩
  · refine Outcome.bind_ok.2 ⟨repeaterScopes, ?_, rfl⟩
    exact Outcome.bind_ok.2 ⟨"foo", by decide +kernel, hsecond⟩

/-- The imports of `a.py`, with the scope of the whole source for each of the two calls. -/
def repeaterImports : List FileImport :=
  let a : FilePath := { names := ["a.py"] }
  let b : Option FilePath := some { names := ["b.py"] }
  [⟨⟨["b"], ["foo"]⟩, .inRepo, a, b, [0, 0]⟩, ⟨⟨["b"], ["bar"]⟩, .inRepo, a, b, []⟩,
    ⟨⟨["b"], ["foo"]⟩, .inRepo, a, b, [0, 0]⟩]

def repeatedMap : RepoMap where
  tree := (pairOf repeater callee).tree
  scopeMaps := [({ names := ["a.py"] }, repeaterScopes), ({ names := ["b.py"] }, calleeScopes)]
  imports := [({ names := ["a.py"] }, repeaterImports), ({ names := ["b.py"] }, [])]
  missing := [({ names := ["a.py"] }, ["b.bar"]), ({ names := ["b.py"] }, [])]
  resolved := [({ names := ["a.py"] }, ["foo", "foo", "foo", "foo"])]
  noted := ["a.py::0"]
  graph := ⟨["a.py::0", "b.py::1"], [(("a.py::0", "b.py::1"), ())]⟩

theorem scopeMaps_repeater : (pairOf repeater callee).tree.sources.mapM
    (scopeMapOf (pairOf repeater callee).tree [repeater, callee]) = .ok repeatedMap.scopeMaps := by
  have hne : ¬ callee.source.data = repeater.source.data := by decide
  exact scopeMaps_pairOf (find_pair hne) scopeMap_repeater scopeMap_callee

theorem build_repeater :
    build (pairOf repeater callee) [repeater, callee] = .ok repeatedMap := by
  rw [build, unlinked, scopeMaps_repeater]
  decide

/-- `foo` is struck off both times it is imported, and resolved four times: twice for each import.
`bar` stays missing. -/
theorem accounts_exact_repeated :
    let w := pairOf repeater callee
    let a : FilePath := { names := ["a.py"] }
    build w [repeater, callee] = .ok repeatedMap ∧ HasScopes w [repeater, callee] a repeaterScopes ∧
      ∃ matching, (∀ i ∈ repeaterImports, Matches w [repeater, callee] i (matching i)) ∧
        Followed matching repeaterImports "b.foo" ∧ ¬ Followed matching repeaterImports "b.bar" ∧
        repeaterImports.flatMap (fun i => (matching i).flatMap fun e =>
          i.refScopes.map fun _ => e.1) = ["foo", "foo", "foo", "foo"] := by
  intro w a
  have hscopes : HasScopes w [repeater, callee] a repeaterScopes :=
    (Outcome.mem_of_mapM scopeMaps_repeater).1 List.mem_cons_self
  obtain ⟨-, hfiles, -⟩ := accounts_exact w [repeater, callee] (proper_pairOf repeater callee)
    repeatedMap build_repeater
  obtain ⟨imports, matching, hofFile, hmatching, hmissing, hresolved⟩ := hfiles a _ hscopes
  have himports : FileImport.ofFile w a repeaterScopes = .ok repeaterImports := by decide
  cases Except.ok.inj (hofFile.symm.trans himports)
  have hlocal : ∀ i ∈ repeaterImports, i.sort = .inRepo := by decide
  have hkept : (repeaterImports.map fun i => i.name.text).filter
      (fun text => ¬ Followed matching repeaterImports text) = ["b.bar"] :=
    (Option.some.inj hmissing).symm
  refine ⟨build_repeater, hscopes, matching, fun i hi => hmatching i hi (hlocal i hi), ?_, ?_, ?_⟩
  · by_contra hnot
    have hmem : "b.foo" ∈ repeaterImports.map fun i => i.name.text := by decide
    have hstays : "b.foo" ∈ ["b.bar"] := hkept ▸ List.mem_filter.2 ⟨hmem, decide_eq_true hnot⟩
    exact absurd hstays (by decide)
  · have hmem := hkept.symm ▸ List.mem_singleton_self "b.bar"
    exact of_decide_eq_true (List.mem_filter.1 hmem).2
  · rw [List.filter_eq_self.2 fun i hi => decide_eq_true (hlocal i hi)] at hresolved
    exact hresolved.symm

end CodeAtlas.RepoMap

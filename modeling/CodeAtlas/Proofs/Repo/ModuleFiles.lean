import CodeAtlas.Proofs.Json.RoundTrip
import CodeAtlas.Proofs.Repo.Links

/-!
# Files of module lists

The file that is made from a page holds the modules of the page under the field `modules`.  The
list of third-party modules is read from under this field.  The list of system modules is read as
the whole record: a record is searched among the names of its fields, so that the one name found
there is `modules`, whatever the page links to.

Main results:
  * `ModulePage.value_systemOf_fileText`, `ModulePage.value_thirdPartyOf_fileText`: what the two
    readers make of the file;
  * `FileImport.classify_system`: an import is a system import if its first name is in the list;
  * `ModulePage.systemOf_fileText_exact`: which names the list of system modules has, for which
    pages these are the modules of the page, and which imports count as system imports.
-/

namespace CodeAtlas

/-! ## §1. Names in a list. -/

theorem Json.same_str (a b : String) : Json.same (.str a) (.str b) = decide (a = b) :=
  rfl

/-- A text is found among texts where it is one of them. -/
theorem Json.any_same_strs (name : String) (names : List String) :
    (names.map Json.str).any (Json.same (.str name)) = decide (name ∈ names) := by
  induction names with
  | nil => rfl
  | cons first names ih => simp [Json.same_str, ih]

namespace ModuleList

/-- In a list of texts, both ways of looking find the texts of it. -/
theorem has_ofStrings {l : ModuleList} {names : List String} (h : l.value = .ofStrings names)
    (name : String) :
    l.has (.str name) = .ok (decide (name ∈ names)) ∧
      l.check (.str name) = .ok (decide (name ∈ names)) := by
  unfold has check
  rw [h, Json.ofStrings]
  simp only [Json.members?, Json.any_same_strs, and_self]

/-- In a record, both ways of looking find the names of its fields and not what they hold. -/
theorem has_obj {l : ModuleList} {fields : List (String × Json)} (h : l.value = .obj fields)
    (name : String) :
    l.has (.str name) = .ok (decide (name ∈ fields.map (·.1))) ∧
      l.check (.str name) = .ok (decide (name ∈ fields.map (·.1))) := by
  have hfields : (fields.map fun f => Json.str f.1) = (fields.map (·.1)).map .str := by simp
  unfold has check
  rw [h]
  simp only [Json.members?, hfields, Json.any_same_strs, and_self]

end ModuleList

/-! ## §2. The file of a page. -/

namespace ModulePage

theorem reread_modules : Json.reread "modules" = "modules" := by
  have hchars : Text.ofChars "modules".toList = "modules" := by rfl
  have h := Json.reread_ofChars "modules".toList
  rwa [hchars] at h

theorem parse_fileText (page : String) :
    Json.parse (fileText page)
      = .ok (.obj [("modules", .ofStrings ((modules page).map Json.reread))]) := by
  rw [fileText, Json.parse_indented_strings, reread_modules]

/-- The list of system modules is the record. -/
theorem value_systemOf_fileText (page : String) :
    (ModuleList.systemOf (some (fileText page))).value
      = .obj [("modules", .ofStrings ((modules page).map Json.reread))] := by
  simp [ModuleList.systemOf, parse_fileText, Except.toOption]

/-- The list of third-party modules is the list under the field. -/
theorem value_thirdPartyOf_fileText (page : String) :
    (ModuleList.thirdPartyOf (some (fileText page))).value
      = .ofStrings ((modules page).map Json.reread) := by
  simp [ModuleList.thirdPartyOf, parse_fileText, Except.toOption, Json.field?, Assoc.get?]

end ModulePage

/-! ## §3. The sort of an import. -/

namespace FileImport

/-- The list of system modules is asked first, and its answer decides whether the module is one. -/
theorem classify_system {w : Setting} {before found : Option FilePath} {n : Namespace}
    {sort : ModuleSort} (h : classify w before n = .ok (sort, found)) :
    w.system.has (.str n.root) = .ok (decide (sort = .system)) := by
  rw [classify, Outcome.bind_ok] at h
  obtain ⟨isSystem, hsystem, h⟩ := h
  rw [hsystem]
  cases isSystem with
  | true =>
    cases Outcome.pure_ok.1 h
    rfl
  | false =>
    -- each of the branches that are left answers with another sort
    have hsort : sort ≠ .system := by
      rw [if_neg Bool.false_ne_true, Outcome.bind_ok] at h
      obtain ⟨isThirdParty, -, h⟩ := h
      cases isThirdParty with
      | true =>
        cases Outcome.pure_ok.1 h
        simp
      | false =>
        rw [if_neg Bool.false_ne_true] at h
        split at h
        all_goals
          cases Outcome.pure_ok.1 h
          simp
    simp [hsort]

end FileImport

namespace ModulePage

/-- **The list of system modules that is read from the file of a page has the one name `modules`.**
So the names found in it are the modules of the page if these are all called `modules` and there is
one, and for no other page; and an import counts as one of a system module if its first name is
`modules`, whatever the page links to.  The list of third-party modules, read from the same file,
has the modules of the page. -/
theorem systemOf_fileText_exact (page : String) :
    (∀ m, (ModuleList.systemOf (some (fileText page))).has (.str m)
        = .ok (decide (m = "modules")) ∧
      (ModuleList.systemOf (some (fileText page))).check (.str m)
        = .ok (decide (m = "modules"))) ∧
    ((∀ m, (ModuleList.systemOf (some (fileText page))).has (.str m)
        = .ok (decide (m ∈ modules page))) ↔
      modules page ≠ [] ∧ ∀ m ∈ modules page, m = "modules") ∧
    (∀ (w : FileImport.Setting) (file : FilePath) (g : ScopeMap) (s : ImportStmt)
      (imports : List FileImport),
      w.system = ModuleList.systemOf (some (fileText page)) →
      FileImport.ofStatement w file g s = .ok imports →
      ∀ i ∈ imports, i.sort = .system ↔ i.name.root = "modules") ∧
    ((∀ m ∈ modules page, ∃ cs, m = Text.ofChars cs) →
      ∀ m, (ModuleList.thirdPartyOf (some (fileText page))).has (.str m)
          = .ok (decide (m ∈ modules page)) ∧
        (ModuleList.thirdPartyOf (some (fileText page))).check (.str m)
          = .ok (decide (m ∈ modules page))) := by
  have hsystem : ∀ m, (ModuleList.systemOf (some (fileText page))).has (.str m)
        = .ok (decide (m = "modules")) ∧
      (ModuleList.systemOf (some (fileText page))).check (.str m)
        = .ok (decide (m = "modules")) := by
    intro m
    have h := ModuleList.has_obj (value_systemOf_fileText page) m
    simpa using h
  refine ⟨hsystem, ?_, ?_, ?_⟩
  · -- the two sides name the same texts where the page links to `modules` alone
    have hsame : (∀ m, (ModuleList.systemOf (some (fileText page))).has (.str m)
        = .ok (decide (m ∈ modules page))) ↔ ∀ m, m = "modules" ↔ m ∈ modules page := by
      simp only [hsystem, Except.ok.injEq, decide_eq_decide]
    rw [hsame]
    constructor
    · intro h
      exact ⟨List.ne_nil_of_mem ((h "modules").1 rfl), fun m hm => (h m).2 hm⟩
    · rintro ⟨hne, hall⟩ m
      constructor
      · intro hm
        obtain ⟨first, hfirst⟩ := List.exists_mem_of_ne_nil _ hne
        rw [hm, ← hall first hfirst]
        exact hfirst
      · exact hall m
  · intro w file g s imports hw h i hi
    obtain ⟨before, hsort⟩ := (FileImport.resolved_of_resolveAll h hi).classified
    have hlist := FileImport.classify_system hsort
    rw [hw, (hsystem i.name.root).1] at hlist
    simpa using (Except.ok.inj hlist).symm
  · intro hchars m
    have hreread : (modules page).map Json.reread = modules page := by
      have heach : ∀ name ∈ modules page, Json.reread name = id name := by
        intro name hname
        obtain ⟨cs, rfl⟩ := hchars name hname
        exact Json.reread_ofChars cs
      rw [List.map_congr_left heach, List.map_id]
    have h := ModuleList.has_ofStrings (value_thirdPartyOf_fileText page) m
    rwa [hreread] at h

/-- A page that links to the module `os`.  The name is not found in the list of system modules, and
`import os` is no import of a system module; it is found among the third-party modules. -/
theorem systemOf_fileText_exact_os :
    let page := "library/os.html#module-os"
    let system := ModuleList.systemOf (some (fileText page))
    let w : FileImport.Setting := ⟨⟨["repo"], [], []⟩, system, .thirdPartyOf none⟩
    modules page = ["os"] ∧ system.has (.str "os") = .ok false ∧
      system.check (.str "os") = .ok false ∧
      (∀ (file : FilePath) (g : ScopeMap), ∃ i,
        FileImport.ofStatement w file g { names := ["os"] } = .ok [i] ∧
          i.name.root = "os" ∧ i.sort ≠ .system) ∧
      (ModuleList.thirdPartyOf (some (fileText page))).has (.str "os") = .ok true := by
  intro page system w
  have hmodules : modules "library/os.html#module-os" = ["os"] := by decide
  obtain ⟨hsystem, -, himports, hthirdParty⟩ := systemOf_fileText_exact page
  refine ⟨hmodules, (hsystem "os").1, (hsystem "os").2, ?_, ?_⟩
  · intro file g
    have hroot : (Namespace.of "os" "").root = "os" := by rfl
    have hclass : FileImport.classify w none (Namespace.of "os" "") = .ok (.unknown, none) := by
      unfold FileImport.classify
      rw [hroot, (hsystem "os").1]
      rfl
    have himport : FileImport.ofStatement w file g { names := ["os"] } = .ok
        [⟨Namespace.of "os" "", .unknown, file, none,
          FileImport.scopesReferringTo g (Namespace.of "os" "").child⟩] := by
      show FileImport.resolveAll w file g none [Namespace.of "os" ""] = _
      rw [FileImport.resolveAll, hclass]
      rfl
    refine ⟨_, himport, hroot, fun hsort => ?_⟩
    have hmodules := (himports w file g _ _ rfl himport _ List.mem_cons_self).1 hsort
    rw [hroot] at hmodules
    exact absurd hmodules (by decide)
  · have hchars : ∀ m ∈ modules page, ∃ cs, m = Text.ofChars cs := by
      intro m hm
      rw [hmodules, List.mem_singleton] at hm
      exact ⟨"os".toList, hm.trans (by rfl)⟩
    have h := (hthirdParty hchars "os").1
    rwa [hmodules] at h

end ModulePage

end CodeAtlas

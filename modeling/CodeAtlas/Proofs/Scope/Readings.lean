import CodeAtlas.Proofs.Outcome
import CodeAtlas.Proofs.Scope.Growth
import CodeAtlas.Scope.Reading

/-!
# Maps that are read from sources

The map of a source is made by insertions only, so that all that holds of every map that can be
reached holds of it.  References come last: when the first of them is added, all scopes, imports and
definitions are there.

Main results:
  * `Reading.scopeMap_stages`: the map of a source before and after its references;
  * `Reading.reachable_scopeMap`: the map of a source can be reached.
-/

namespace CodeAtlas

namespace ScopeMap

variable {allowed : Insertion → Prop} {source : SourceRange} {g grown : ScopeMap}

theorem Reachable.mono {more : Insertion → Prop} (hmore : ∀ new, allowed new → more new)
    (h : Reachable allowed source g) : Reachable more source g := by
  induction h with
  | start hstart => exact .start hstart
  | insert new _ hnew ih => exact ih.insert new (hmore new hnew)

theorem Reachable.of_insertAll {news : List Insertion} (h : Reachable allowed source g)
    (hnews : ∀ new ∈ news, allowed new) (hall : g.insertAll news = .ok grown) :
    Reachable allowed source grown := by
  induction news generalizing g with
  | nil =>
    cases hall
    exact h
  | cons new rest ih =>
    have hnext := h.insert new (hnews new List.mem_cons_self)
    rw [ScopeMap.insertAll] at hall
    split at hall
    · cases hall
    · rename_i next hinsert
      rw [hinsert] at hnext
      exact ih hnext (fun other hother => hnews other (List.mem_cons_of_mem _ hother)) hall

end ScopeMap

namespace Reading

open ScopeMap (Reachable)

/-- Steps each of which makes one insertion lead from a map that can be reached to another one. -/
theorem reachable_foldlM {α : Type} {allowed : Insertion → Prop} {source : SourceRange}
    {step : ScopeMap → α → Outcome ScopeMap}
    (hstep : ∀ g a grown, step g a = .ok grown → ∃ new, allowed new ∧ g.insertAll [new] = .ok grown)
    {xs : List α} {g grown : ScopeMap} (h : Reachable allowed source g)
    (hall : xs.foldlM step g = .ok grown) : Reachable allowed source grown := by
  refine Outcome.foldlM_rule (fun _ g => Reachable allowed source g) ?_ h hall
  intro _ a g grown hg hnext
  obtain ⟨new, hnew, hinsert⟩ := hstep g a grown hnext
  exact hg.of_insertAll (fun other hother => List.mem_singleton.1 hother ▸ hnew) hinsert

/-- **References come last.**  The map of a source is one that has no references yet, with the
references added. -/
theorem scopeMap_stages {r : Reading} {g : ScopeMap} (h : r.scopeMap = .ok g) :
    ∃ before, Reachable Insertion.Binds r.range before ∧
      withReferences r.source (referenceRanges r.roles) before = .ok g := by
  unfold scopeMap at h
  simp only [Outcome.bind_ok] at h
  obtain ⟨defs, -, start, hstart, scopes, hscopes, imports, himports, defined, hdefined,
    hreferred⟩ := h
  refine ⟨defined, ?_, hreferred⟩
  have hreach : Reachable Insertion.Binds r.range scopes := by
    refine (Reachable.start hstart).of_insertAll ?_ hscopes
    intro new hnew
    obtain ⟨range, -, rfl⟩ := List.mem_map.1 hnew
    trivial
  have hreach := reachable_foldlM ?_ hreach himports
  refine reachable_foldlM ?_ hreach hdefined
  -- the parts of an import and the names of definitions are read before they go in
  · rintro g ⟨range, scoping, sort⟩ grown hnext
    obtain ⟨name, -, hinsert⟩ := Outcome.bind_ok.1 hnext
    exact ⟨.definition scoping range name sort, trivial, hinsert⟩
  · intro g range grown hnext
    obtain ⟨statement, -, hinsert⟩ := Outcome.bind_ok.1 hnext
    exact ⟨.importStmt range statement, trivial, hinsert⟩

/-- **Reading only inserts.** -/
theorem reachable_scopeMap {r : Reading} {g : ScopeMap} (h : r.scopeMap = .ok g) :
    Reachable (fun _ => True) r.range g := by
  obtain ⟨before, hbefore, hreferred⟩ := scopeMap_stages h
  refine reachable_foldlM ?_ (hbefore.mono fun _ _ => trivial) hreferred
  intro g range grown hnext
  obtain ⟨name, -, hinsert⟩ := Outcome.bind_ok.1 hnext
  exact ⟨_, trivial, hinsert⟩

end Reading

end CodeAtlas

import CodeAtlas.Proofs.Scope.Visibility
import CodeAtlas.Proofs.Source.Decoding

/-!
# The order between tags

A tag is a row of words with dots between them, and its words tell the group that it belongs to:
scopes, imports, parts of imports, definitions or references.  A source is read group by group, each
group in the order of its tags, and all the groups before the references.  So the map of a source,
or the failure to make one, does not depend on how the groups are mixed, and a reference finds the
definitions behind it as well as those before it.

Main results:
  * `TagGroup.has_iff`: the group of a tag by its words, and as it is told when a source is read;
  * `Reading.filterMap_of_sameGroups`: what is taken from one group depends on this group alone;
  * `Reading.scopeMap_regardless_of_mixing`: the map of a source depends on the groups alone.
-/

namespace CodeAtlas

/-! ## §1. Words of a tag. -/

namespace Text

theorem notMem_of_mem_splitOn {sep : Char} {cs piece : List Char} (h : piece ∈ cs.splitOn sep) :
    sep ∉ piece := by
  induction cs generalizing piece with
  | nil =>
    rw [List.splitOn_nil, List.mem_singleton] at h
    simp [h]
  | cons c cs ih =>
    rw [List.splitOn_cons_eq_if_modifyHead] at h
    by_cases hc : (c == sep) = true
    · rw [if_pos hc] at h
      obtain rfl | h := List.mem_cons.1 h
      · simp
      · exact ih h
    · -- the character goes to the front of the first piece of the rest
      rw [if_neg hc] at h
      obtain ⟨first, rest, hrest⟩ := List.exists_cons_of_ne_nil (List.splitOn_ne_nil sep cs)
      rw [hrest] at h ih
      obtain rfl | h := List.mem_cons.1 h
      · have hne : sep ≠ c := fun heq => hc (beq_iff_eq.2 heq.symm)
        simp [hne, ih List.mem_cons_self]
      · exact ih (List.mem_cons_of_mem _ h)

/-- The pieces of a text, and the text that is made of pieces. -/
theorem split_eq_iff {sep : Char} {s : String} {pieces : List String} :
    split sep s = pieces ↔ s = join (String.singleton sep) pieces ∧ pieces ≠ [] ∧
      ∀ p ∈ pieces, sep ∉ p.toList := by
  have hofList : String.ofList ∘ String.toList = id := funext fun _ => String.ofList_toList
  have htoList : String.toList ∘ String.ofList = id := funext fun _ => String.toList_ofList
  constructor
  · rintro rfl
    refine ⟨?_, by simp [split, List.splitOn_ne_nil], ?_⟩
    · apply String.toList_injective
      rw [join, split, String.toList_intercalate, String.toList_singleton, List.map_map, htoList,
        List.map_id, List.intercalate_splitOn]
    · intro p hp
      obtain ⟨cs, hcs, rfl⟩ := List.mem_map.1 hp
      rw [String.toList_ofList]
      exact notMem_of_mem_splitOn hcs
  · rintro ⟨rfl, hne, hpieces⟩
    have hsplit : ([sep].intercalate (pieces.map String.toList)).splitOn sep
        = pieces.map String.toList := by
      refine List.splitOn_intercalate sep ?_ (by simpa using hne)
      intro cs hcs
      obtain ⟨p, hp, rfl⟩ := List.mem_map.1 hcs
      exact hpieces p hp
    rw [split, join, String.toList_intercalate, String.toList_singleton, hsplit, List.map_map,
      hofList, List.map_id]

end Text

/-! ## §2. Groups of tags. -/

/-- What the tags of a source are about. -/
inductive TagGroup where
  | scope
  | importStmt
  | importPart
  | definition
  | reference
  deriving DecidableEq

namespace TagGroup

/-- A tag of the words, which have no dots in them. -/
def Spells (words : List String) (tag : String) : Prop :=
  tag = Text.join "." words ∧ ∀ w ∈ words, '.' ∉ w.toList

/-- The words are those of a tag of the group. -/
inductive HasWords : TagGroup → List String → Prop
  | scope : HasWords .scope ["local", "scope"]
  | importStmt : HasWords .importStmt ["local", "import", "statement"]
  | importPart {part : String} :
    part ≠ "statement" → HasWords .importPart ["local", "import", part]
  | definition (scoping : String) : HasWords .definition [scoping, "definition"]
  | sortedDefinition (scoping sort : String) :
    HasWords .definition [scoping, "definition", sort]
  | reference : HasWords .reference ["local", "reference"]

/-- The tag belongs to the group. -/
def Has (group : TagGroup) (tag : String) : Prop :=
  ∃ words, group.HasWords words ∧ Spells words tag

end TagGroup

namespace Reading

/-- The group of the tags with a role. -/
def Role.group : Role → Option TagGroup
  | .scope => some .scope
  | .importStmt => some .importStmt
  | .importPart _ => some .importPart
  | .definition _ _ => some .definition
  | .reference => some .reference
  | .other => none

end Reading

namespace TagGroup

open Reading (Role)

theorem HasWords.ne_nil {group : TagGroup} {words : List String} (h : group.HasWords words) :
    words ≠ [] := by
  cases h <;> simp

/-- **The group of a tag** is the one that is told when a source is read. -/
theorem has_iff {group : TagGroup} {tag : String} :
    group.Has tag ↔ (Role.ofTag tag).group = some group := by
  have hwords : ∀ words, words ≠ [] → (Spells words tag ↔ Text.split '.' tag = words) := by
    intro words hne
    rw [Text.split_eq_iff, and_iff_right hne]
    rfl
  constructor
  · rintro ⟨words, hgroup, hspells⟩
    rw [hwords words hgroup.ne_nil] at hspells
    unfold Role.ofTag
    rw [hspells]
    cases hgroup with
    | scope => rfl
    | importStmt => rfl
    | importPart hne =>
      -- of the other patterns, only that of a whole import comes near
      split
      case h_5 heq => simp_all
      case h_6 => rfl
      all_goals simp_all
    | definition scoping => rfl
    | sortedDefinition scoping sort => rfl
    | reference => rfl
  · intro h
    have hgroup : group.HasWords (Text.split '.' tag) := by
      unfold Role.ofTag at h
      split at h
      case h_1 scoping sort heq =>
        cases h
        rw [heq]
        exact .sortedDefinition scoping sort
      case h_2 scoping heq =>
        cases h
        rw [heq]
        exact .definition scoping
      case h_3 heq =>
        cases h
        rw [heq]
        exact .reference
      case h_4 heq =>
        cases h
        rw [heq]
        exact .scope
      case h_5 heq =>
        cases h
        rw [heq]
        exact .importStmt
      case h_6 part hne heq =>
        cases h
        rw [heq]
        exact .importPart hne
      case h_7 => cases h
    exact ⟨_, hgroup, (hwords _ hgroup.ne_nil).2 rfl⟩

instance (group : TagGroup) (tag : String) : Decidable (group.Has tag) :=
  decidable_of_iff _ has_iff.symm

/-- A tag belongs to one group at most. -/
theorem Has.unique {group other : TagGroup} {tag : String} (h : group.Has tag)
    (h' : other.Has tag) : group = other := by
  rw [has_iff] at h h'
  exact Option.some.inj (h.symm.trans h')

end TagGroup

/-! ## §3. What reading takes from each group. -/

/-- The tagged ranges of each group are the same, in the same order. -/
def SameGroups (tagged other : List Tagged) : Prop :=
  ∀ group : TagGroup,
    (tagged.filter fun t => group.Has t.tag) = other.filter fun t => group.Has t.tag

/-- A reference may stand before or behind definitions. -/
theorem sameGroups_of_moved (front between back : List Tagged) {t : Tagged}
    (ht : TagGroup.reference.Has t.tag) (hbetween : ∀ d ∈ between, TagGroup.definition.Has d.tag) :
    SameGroups (front ++ t :: (between ++ back)) (front ++ (between ++ t :: back)) := by
  intro group
  simp only [List.filter_append, List.filter_cons]
  by_cases hgroup : group = .reference
  · -- no definition is a reference
    have hnone : (between.filter fun d => group.Has d.tag) = [] := by
      rw [List.filter_eq_nil_iff]
      intro d hd
      rw [decide_eq_true_eq]
      intro hhas
      rw [hgroup] at hhas
      cases hhas.unique (hbetween d hd)
    rw [hnone]
    simp
  · have hnot : ¬ group.Has t.tag := fun hhas => hgroup (hhas.unique ht)
    simp [hnot]

namespace Reading

/-- **One group.**  What is taken from the tagged ranges of one group depends on these alone. -/
theorem filterMap_of_sameGroups {α : Type} {r : Reading} {other : List Tagged}
    (h : SameGroups r.tagged other) (group : TagGroup) {take : SourceRange × Role → Option α}
    (htake : ∀ range role, take (range, role) ≠ none → role.group = some group) :
    ({ r with tagged := other } : Reading).roles.filterMap take = r.roles.filterMap take := by
  let taken : Tagged → Option α := fun t =>
    take (SourceRange.between r.source t.start t.stop, .ofTag t.tag)
  have hfiltered : ∀ tagged : List Tagged,
      tagged.filterMap taken = (tagged.filter fun t => group.Has t.tag).filterMap taken := by
    intro tagged
    rw [List.filterMap_filter]
    refine List.filterMap_congr fun t _ => ?_
    by_cases hhas : group.Has t.tag
    · rw [if_pos (decide_eq_true hhas)]
    · rw [if_neg (by simpa using hhas)]
      by_contra hsome
      exact hhas (TagGroup.has_iff.2 (htake _ _ hsome))
  unfold roles
  rw [List.filterMap_map, List.filterMap_map]
  show other.filterMap taken = r.tagged.filterMap taken
  rw [hfiltered, hfiltered r.tagged, h group]

variable {r : Reading} {other : List Tagged}

/-- **All groups.**  Reading looks at the tagged ranges of each group and at nothing else. -/
theorem scopeMap_of_sameGroups (h : SameGroups r.tagged other) :
    ({ r with tagged := other } : Reading).scopeMap = r.scopeMap := by
  let mixed : Reading := { r with tagged := other }
  have hscopes : scopeRanges mixed.roles = scopeRanges r.roles := by
    refine filterMap_of_sameGroups h .scope fun range role hsome => ?_
    cases role <;> simp_all [Role.group]
  have himports : importRanges mixed.roles = importRanges r.roles := by
    refine filterMap_of_sameGroups h .importStmt fun range role hsome => ?_
    cases role <;> simp_all [Role.group]
  have hparts : importParts mixed.roles = importParts r.roles := by
    refine filterMap_of_sameGroups h .importPart fun range role hsome => ?_
    cases role <;> simp_all [Role.group]
  have hreferences : referenceRanges mixed.roles = referenceRanges r.roles := by
    refine filterMap_of_sameGroups h .reference fun range role hsome => ?_
    cases role <;> simp_all [Role.group]
  have hdefinitions : definitions mixed.roles = definitions r.roles := by
    -- the words for scopings are checked one by one, in the order of the definitions
    refine congrArg (List.mapM _) (filterMap_of_sameGroups h .definition fun range role hsome => ?_)
    cases role <;> simp_all [Role.group]
  show mixed.scopeMap = r.scopeMap
  unfold scopeMap withImports
  dsimp only
  rw [hscopes, himports, hparts, hreferences, hdefinitions]
  rfl

/-- **The order between groups does not matter.**  Two rows of tagged ranges that have the same
ranges of each group, in the same order, give the same map of a source, or fail in the same way;
other tags may be anywhere.  In particular a reference may stand before or behind definitions: in the
map, it is linked to the oldest definition of its name in each of the scopes on the way outward that
has one, wherever their tags are. -/
theorem scopeMap_regardless_of_mixing (r : Reading) :
    (∀ other, SameGroups r.tagged other →
        ({ r with tagged := other } : Reading).scopeMap = r.scopeMap) ∧
      (∀ front between back t, TagGroup.reference.Has t.tag →
        (∀ d ∈ between, TagGroup.definition.Has d.tag) →
          ({ r with tagged := front ++ t :: (between ++ back) } : Reading).scopeMap =
            ({ r with tagged := front ++ (between ++ t :: back) } : Reading).scopeMap) ∧
      ∀ g, r.scopeMap = .ok g → ∀ x s, ⟨s, .refToOrigin⟩ ∈ g.links x →
        ∀ d, ⟨d, .refToDef⟩ ∈ g.links x ↔
          ∃ t ∈ g.outward s, g.FirstDefinesIn (g.nameOf x) t d := by
  refine ⟨fun other => scopeMap_of_sameGroups, ?_, ?_⟩
  · intro front between back t ht hbetween
    exact (scopeMap_of_sameGroups
      (r := { r with tagged := front ++ t :: (between ++ back) })
      (sameGroups_of_moved front between back ht hbetween)).symm
  · intro g hg x s horigin d
    rw [ScopeMap.settled_of_scopeMap hg x s horigin, ScopeMap.mem_referenceLinks]
    constructor
    · rintro (⟨t, ht, e, hfirst, heq⟩ | ⟨t, -, m, -, heq⟩ | heq)
      · cases heq
        exact ⟨t, ht, hfirst⟩
      · cases heq
      · cases heq
    · rintro ⟨t, ht, hfirst⟩
      exact Or.inl ⟨t, ht, d, hfirst, rfl⟩

/-- A source that calls `f` in its first row and defines it in its second. -/
def callFirst : Reading :=
  ⟨"f()\nf = 1\n".toUTF8, 0, 10,
    [⟨0, 1, "local.reference"⟩, ⟨4, 5, "local.definition.variable"⟩]⟩

def callFirstScopes : ScopeMap where
  nodes := #[{ range := ⟨0, 10, 0, 0, 2, 0⟩, item := .scope },
    { range := ⟨4, 5, 1, 0, 1, 1⟩, item := .definition (.recorded (some "variable")), name := "f",
      links := [⟨0, .defToScope⟩] },
    { range := ⟨0, 1, 0, 0, 0, 1⟩, item := .reference, name := "f",
      links := [⟨1, .refToDef⟩, ⟨0, .refToOrigin⟩] }]
  placed := [(⟨0, 10, 0, 0, 2, 0⟩, 0)]

theorem scopeMap_callFirst : callFirst.scopeMap = .ok callFirstScopes := by
  have hrange : callFirst.range = ⟨0, 10, 0, 0, 2, 0⟩ := by
    simp only [range, SourceRange.between, Source.pointAt_eq]
    decide +kernel
  have hroles : callFirst.roles = [(⟨0, 1, 0, 0, 0, 1⟩, .reference),
      (⟨4, 5, 1, 0, 1, 1⟩, .definition "local" (some "variable"))] := by
    simp only [roles, SourceRange.between, Source.pointAt_eq]
    decide +kernel
  rw [scopeMap, hrange, hroles]
  -- the map before the reference, which stands in the scope of the whole source
  let start : ScopeMap := ⟨callFirstScopes.nodes.take 1, callFirstScopes.placed⟩
  let before : ScopeMap := ⟨callFirstScopes.nodes.take 2, callFirstScopes.placed⟩
  have hmeasure : (SourceRange.mk 0 1 0 0 0 1).rows.measure = .ok () := by decide +kernel
  have hat : before.scopeAt ⟨0, 1, 0, 0, 0, 1⟩ = 0 := by decide +kernel
  have hchain : before.outward 0 = [0] := by decide +kernel
  have hinsert : before.insertAll [.reference ⟨0, 1, 0, 0, 0, 1⟩ "f"] = .ok callFirstScopes := by
    rw [ScopeMap.insertAll, ScopeMap.insert_known hmeasure hat hchain (by decide +kernel)]
    decide +kernel
  refine Outcome.bind_ok.2 ⟨[(⟨4, 5, 1, 0, 1, 1⟩, .inPlace, some "variable")], rfl, ?_⟩
  refine Outcome.bind_ok.2 ⟨start, by decide +kernel, ?_⟩
  refine Outcome.bind_ok.2 ⟨start, rfl, Outcome.bind_ok.2 ⟨start, rfl, ?_⟩⟩
  refine Outcome.bind_ok.2 ⟨before, by decide +kernel, Outcome.bind_ok.2 ⟨callFirstScopes, ?_, rfl⟩⟩
  exact Outcome.bind_ok.2 ⟨"f", by decide +kernel, hinsert⟩

/-- The definition may as well be tagged before the call, with another tag between them. -/
theorem scopeMap_regardless_of_mixing_call :
    let mixed : List Tagged :=
      [⟨4, 5, "local.definition.variable"⟩, ⟨0, 3, "call"⟩, ⟨0, 1, "local.reference"⟩]
    SameGroups callFirst.tagged mixed ∧
      ({ callFirst with tagged := mixed } : Reading).scopeMap = .ok callFirstScopes ∧
      ⟨1, .refToDef⟩ ∈ callFirstScopes.links 2 ∧
      ∃ t ∈ callFirstScopes.outward 0, callFirstScopes.FirstDefinesIn "f" t 1 := by
  intro mixed
  have hsame : SameGroups callFirst.tagged mixed := by
    intro group
    cases group <;> decide +kernel
  obtain ⟨hmixed, -, hlinked⟩ := scopeMap_regardless_of_mixing callFirst
  have hlink : ⟨1, .refToDef⟩ ∈ callFirstScopes.links 2 := by decide
  refine ⟨hsame, (hmixed mixed hsame).trans scopeMap_callFirst, hlink, ?_⟩
  exact (hlinked _ scopeMap_callFirst 2 0 (by decide) 1).1 hlink

end Reading

end CodeAtlas

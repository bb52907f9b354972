import CodeAtlas.Proofs.Parse.Numbering
import CodeAtlas.Proofs.Parse.SpanNames
import Mathlib.Data.List.Induction

/-!
# Names among siblings

A block is named when it is begun.  It gets the name that it wants, which is the one its node has or
one made from its content, unless an earlier sibling of its kind has that name; then it gets the name
of its node with the number of those siblings behind it.

Numbers tell numbered names apart.  But a numbered name is not compared with anything, so that it may
be one that an earlier sibling wanted.  And the kind under which a block is named is not always the
one that it has in the end: a comment, class or function that stands for code left out becomes a
placeholder, and with the names of placeholders its own name was never compared.  These are the two
ways in which siblings of one kind come to have one name, and there is no other.

Main results:
  * `numbered_inj`: numbered names tell the number;
  * `EntitledRow.clashes_iff`: which blocks of a row have a name for the second time;
  * `readNode_names`, `readRoot_rows`: the rows of blocks that reading makes;
  * `siblings_differ_exactly`: in which modules siblings of a kind have different names.
-/

namespace CodeAtlas

namespace Parse

open Block

/-! ## §1. Titles. -/

/-- What a block is named by: the kind under which it is named, its content, and the name that its
node has. -/
structure Title where
  kind : BlockKind
  content : String
  own : Option String
  deriving DecidableEq

/-- The names of the siblings of a kind. -/
def taken (kind : BlockKind) (siblings : List (BlockKind × Option String)) : List (Option String) :=
  (siblings.filter fun x => x.1 = kind).map (·.2)

namespace Title

/-- The name of the block if no sibling has it. -/
def wanted (t : Title) : String :=
  match t.own with
  | some "" | none => derivedName t.kind t.content
  | some n => n

/-- The name of the node with a number behind it. -/
def numbered (t : Title) (count : Nat) : String :=
  t.own.getD "None" ++ "_" ++ Nat.repr count

/-- The name of the block among its earlier siblings. -/
def given (t : Title) (siblings : List (BlockKind × Option String)) : String :=
  if some t.wanted ∈ taken t.kind siblings then t.numbered (taken t.kind siblings).length
  else t.wanted

end Title

theorem uniqueName_eq (t : Title) (siblings : List (BlockKind × Option String)) :
    uniqueName t.kind t.content t.own siblings = t.given siblings := by
  unfold uniqueName Title.given Title.numbered
  show (if (taken t.kind siblings).contains (some t.wanted) = true then
    t.own.getD "None" ++ "_" ++ Nat.repr (taken t.kind siblings).length else t.wanted) = _
  simp only [List.contains_iff_mem]

/-- **Numbered names tell the number**, whatever stands before it. -/
theorem numbered_inj {t u : Title} {m n : Nat} (h : t.numbered m = u.numbered n) : m = n := by
  have hdigits : ∀ n : Nat, '_' ∉ (Nat.repr n).toList := by
    intro n hmem
    rw [Nat.toList_repr] at hmem
    exact absurd (Text.isDigit_of_mem_toDigits hmem) (by decide)
  have hchars : (t.own.getD "None").toList ++ '_' :: (Nat.repr m).toList
      = (u.own.getD "None").toList ++ '_' :: (Nat.repr n).toList := by
    have := congrArg String.toList h
    simpa [Title.numbered, String.toList_append] using this
  obtain ⟨-, hsame⟩ := Text.eq_of_append_last hchars (hdigits m) (hdigits n)
  exact Text.repr_injective (String.toList_injective hsame)

/-! ## §2. Rows of named blocks. -/

/-- What siblings are told apart by, and the number of the block. -/
structure Label where
  id : Nat
  kind : BlockKind
  name : Option String
  deriving DecidableEq

/-- What a later sibling looks at. -/
def Label.sight (x : Label) : BlockKind × Option String :=
  (x.kind, x.name)

def labelOf (b : Block) : Label :=
  ⟨b.info.id, b.info.kind, b.info.name⟩

theorem siblingNames_eq (blocks : List Block) :
    siblingNames blocks = (blocks.map labelOf).map Label.sight := by
  rw [List.map_map]
  rfl

/-- The kinds of blocks that become placeholders if they stand for code left out. -/
def MayBeOmission (kind : BlockKind) : Prop :=
  kind = .comment ∨ kind = .classDef ∨ kind = .functionDef

section Rows

variable (title : Label → Option Title)

/-- The block was named among the siblings.  After that it has kept its kind or become a
placeholder. -/
def Entitled (siblings : List (BlockKind × Option String)) (y : Label) : Prop :=
  ∃ t, title y = some t ∧ y.name = some (t.given siblings) ∧ t.kind ≠ .placeholder
    ∧ (y.kind = t.kind ∨ y.kind = .placeholder ∧ MayBeOmission t.kind)

/-- The blocks of the row were named one after the other. -/
def EntitledRow (row : List Label) : Prop :=
  ∀ earlier y later, row = earlier ++ y :: later → Entitled title (earlier.map Label.sight) y

/-- **How a block comes to a name that an earlier sibling of its kind has.** -/
inductive Repeats (earlier : List Label) (y : Label) : Prop
  /-- Its name had to be numbered, and an earlier sibling of the kind wanted the numbered name. -/
  | numbered {t : Title} : title y = some t → y.kind = t.kind →
    some t.wanted ∈ taken t.kind (earlier.map Label.sight) →
    (∃ x ∈ earlier, x.kind = t.kind ∧ ∃ u, title x = some u
      ∧ u.wanted = t.numbered (taken t.kind (earlier.map Label.sight)).length) →
    Repeats earlier y
  /-- It was named as a comment, a class or a function, among siblings of that kind, before it became
  a placeholder, and an earlier placeholder has the name. -/
  | placeholder {t : Title} : title y = some t → MayBeOmission t.kind → y.kind = .placeholder →
    some (t.given (earlier.map Label.sight)) ∈ taken .placeholder (earlier.map Label.sight) →
    Repeats earlier y

end Rows

/-- An earlier sibling has the kind and the name of the block. -/
def Clashes (earlier : List Label) (y : Label) : Prop :=
  ∃ x ∈ earlier, x.kind = y.kind ∧ x.name = y.name

section Naming

variable {title : Label → Option Title} {row earlier later : List Label} {y : Label}

theorem mem_taken {kind : BlockKind} {name : Option String} :
    name ∈ taken kind (earlier.map Label.sight) ↔ ∃ x ∈ earlier, x.kind = kind ∧ x.name = name := by
  unfold taken
  simp only [List.mem_map, List.mem_filter, decide_eq_true_eq]
  constructor
  · rintro ⟨_, ⟨⟨x, hx, rfl⟩, hkind⟩, rfl⟩
    exact ⟨x, hx, hkind, rfl⟩
  · rintro ⟨x, hx, hkind, rfl⟩
    exact ⟨x.sight, ⟨⟨x, hx, rfl⟩, hkind⟩, rfl⟩

theorem clashes_iff_taken : Clashes earlier y ↔ y.name ∈ taken y.kind (earlier.map Label.sight) :=
  mem_taken.symm

/-- A block that has kept its kind is counted by those behind it. -/
theorem length_taken_lt (before between : List Label) {x : Label} {kind : BlockKind}
    (hx : x.kind = kind) :
    (taken kind (before.map Label.sight)).length
      < (taken kind ((before ++ x :: between).map Label.sight)).length := by
  have hsight : x.sight.1 = kind := hx
  unfold taken
  simp [hsight]

/-- A name that a block of the row wanted is had by one of the kind then. -/
theorem EntitledRow.taken_of_wanted (hrow : EntitledRow title row)
    (hsplit : row = earlier ++ y :: later) {x : Label} (hx : x ∈ earlier) {t : Title}
    (ht : title x = some t) (hkind : x.kind ≠ .placeholder) :
    some t.wanted ∈ taken x.kind (earlier.map Label.sight) := by
  obtain ⟨before, between, rfl⟩ := List.append_of_mem hx
  obtain ⟨u, hu, hname, -, hkept⟩ := hrow before x (between ++ y :: later) (by rw [hsplit]; simp)
  obtain rfl : t = u := Option.some.inj (ht.symm.trans hu)
  have hxkind : x.kind = t.kind := hkept.resolve_right fun hbecame => hkind hbecame.1
  rw [hxkind]
  -- it has the name itself unless one before it has
  by_cases hbefore : some t.wanted ∈ taken t.kind (before.map Label.sight)
  · obtain ⟨z, hz, hzkind, hzname⟩ := mem_taken.1 hbefore
    exact mem_taken.2 ⟨z, List.mem_append_left _ hz, hzkind, hzname⟩
  · unfold Title.given at hname
    rw [if_neg hbefore] at hname
    exact mem_taken.2 ⟨x, hx, hxkind, hname⟩

/-- A numbered name that an earlier block of the kind has is one that a block wanted: the numbers of
the earlier ones are smaller. -/
theorem EntitledRow.wanted_of_numbered (hrow : EntitledRow title row)
    (hsplit : row = earlier ++ y :: later) {t : Title} (hkind : t.kind ≠ .placeholder)
    (h : some (t.numbered (taken t.kind (earlier.map Label.sight)).length)
      ∈ taken t.kind (earlier.map Label.sight)) :
    ∃ x ∈ earlier, x.kind = t.kind ∧ ∃ u, title x = some u
      ∧ u.wanted = t.numbered (taken t.kind (earlier.map Label.sight)).length := by
  obtain ⟨x, hx, hxkind, hxname⟩ := mem_taken.1 h
  refine ⟨x, hx, hxkind, ?_⟩
  obtain ⟨before, between, rfl⟩ := List.append_of_mem hx
  obtain ⟨u, hu, hname, -, hkept⟩ := hrow before x (between ++ y :: later) (by rw [hsplit]; simp)
  refine ⟨u, hu, ?_⟩
  have hukind : u.kind = t.kind := by
    obtain hkept | ⟨hbecame, -⟩ := hkept
    · exact hkept.symm.trans hxkind
    · exact absurd (hxkind.symm.trans hbecame) hkind
  have hgiven := Option.some.inj (hname.symm.trans hxname)
  unfold Title.given at hgiven
  rw [hukind] at hgiven
  split at hgiven
  · -- numbered itself, it would have counted as many siblings as the block behind it, which also
    -- counts this one
    have hsame := numbered_inj hgiven
    have hless := length_taken_lt before between hxkind
    omega
  · exact hgiven

/-- **Which blocks of a row have a name for the second time.** -/
theorem EntitledRow.clashes_iff (hrow : EntitledRow title row)
    (hsplit : row = earlier ++ y :: later) : Clashes earlier y ↔ Repeats title earlier y := by
  obtain ⟨t, ht, hname, hnamed, hkept⟩ := hrow earlier y later hsplit
  rw [clashes_iff_taken, hname]
  by_cases hplaceholder : y.kind = .placeholder
  · -- it was named under the kind that it had then, so it has become a placeholder since
    have homission : MayBeOmission t.kind := by
      obtain hkind | hbecame := hkept
      · exact absurd (hkind.symm.trans hplaceholder) hnamed
      · exact hbecame.2
    rw [hplaceholder]
    constructor
    · intro hclash
      exact .placeholder ht homission hplaceholder hclash
    · rintro (⟨hu, hkind, -, -⟩ | ⟨hu, -, -, hclash⟩)
      · obtain rfl : t = _ := Option.some.inj (ht.symm.trans hu)
        exact absurd (hkind.symm.trans hplaceholder) hnamed
      · obtain rfl : t = _ := Option.some.inj (ht.symm.trans hu)
        exact hclash
  · -- it has kept its kind, so it was compared with all earlier siblings that have it now
    have hkind : y.kind = t.kind := hkept.resolve_right fun hbecame => hplaceholder hbecame.1
    rw [hkind]
    unfold Title.given
    constructor
    · intro hclash
      -- the name that was wanted is given only if no sibling has it
      split at hclash
      · rename_i hwanted
        exact .numbered ht hkind hwanted (hrow.wanted_of_numbered hsplit hnamed hclash)
      · rename_i hwanted
        exact absurd hclash hwanted
    · rintro (⟨hu, -, hwanted, x, hx, hxkind, u, hxu, hsame⟩ | ⟨-, -, hbecame, -⟩)
      · obtain rfl : t = _ := Option.some.inj (ht.symm.trans hu)
        rw [if_pos hwanted, ← hsame, ← hxkind]
        exact hrow.taken_of_wanted hsplit hx hxu (hxkind ▸ hnamed)
      · exact absurd hbecame hplaceholder

theorem EntitledRow.nil : EntitledRow title [] := by
  intro earlier y later hsplit
  simp at hsplit

/-- A place in a row that ends with `last` is its end or lies before it. -/
theorem concat_split {last : Label} (h : row ++ [last] = earlier ++ y :: later) :
    row = earlier ∧ last = y ∧ later = [] ∨
      ∃ shorter, row = earlier ++ y :: shorter ∧ later = shorter ++ [last] := by
  obtain rfl | ⟨shorter, z, rfl⟩ := later.eq_nil_or_concat
  · obtain ⟨hrow, hlast⟩ := List.append_inj' h rfl
    exact Or.inl ⟨hrow, List.singleton_inj.1 hlast, rfl⟩
  · rw [List.concat_eq_append, ← List.cons_append, ← List.append_assoc] at h
    obtain ⟨hrow, hlast⟩ := List.append_inj' h rfl
    rw [List.singleton_inj.1 hlast]
    exact Or.inr ⟨shorter, hrow, List.concat_eq_append⟩

/-- One more block that was named among those of the row. -/
theorem EntitledRow.concat (hrow : EntitledRow title row)
    (hy : Entitled title (row.map Label.sight) y) : EntitledRow title (row ++ [y]) := by
  intro earlier z later hsplit
  obtain ⟨rfl, rfl, -⟩ | ⟨shorter, hrest, -⟩ := concat_split hsplit
  · exact hy
  · exact hrow earlier z shorter hrest

/-- Titles may become known for more blocks. -/
theorem Entitled.mono {more : Label → Option Title} (h : ∀ x t, title x = some t → more x = some t)
    {siblings : List (BlockKind × Option String)} (hy : Entitled title siblings y) :
    Entitled more siblings y := by
  obtain ⟨t, ht, hrest⟩ := hy
  exact ⟨t, h y t ht, hrest⟩

theorem EntitledRow.mono {more : Label → Option Title}
    (h : ∀ x t, title x = some t → more x = some t) (hrow : EntitledRow title row) :
    EntitledRow more row :=
  fun earlier y later hsplit => (hrow earlier y later hsplit).mono h

variable (title) in
/-- A row of blocks that were named, perhaps with one behind them that has no name and no title. -/
def TrailedRow (row : List Label) : Prop :=
  EntitledRow title row ∨ ∃ made space, row = made ++ [space] ∧ EntitledRow title made
    ∧ title space = none ∧ space.name = none

theorem TrailedRow.clashes_iff (h : TrailedRow title row) (hsplit : row = earlier ++ y :: later) :
    Clashes earlier y ↔ Repeats title earlier y := by
  obtain hrow | ⟨made, space, rfl, hrow, htitle, hname⟩ := h
  · exact hrow.clashes_iff hsplit
  obtain ⟨rfl, rfl, -⟩ | ⟨shorter, hrest, -⟩ := concat_split hsplit
  · -- all others have names and the last has none
    constructor
    · rintro ⟨x, hx, -, hsame⟩
      obtain ⟨before, between, hmade⟩ := List.append_of_mem hx
      obtain ⟨t, -, hxname, -⟩ := hrow before x between hmade
      rw [hxname, hname] at hsame
      cases hsame
    · rintro (⟨ht, -⟩ | ⟨ht, -⟩)
      · rw [htitle] at ht
        cases ht
      · rw [htitle] at ht
        cases ht
  · exact hrow.clashes_iff hrest

/-- Names differ within each kind just if no block has one for the second time. -/
theorem pairwise_differ_iff (row : List Label) :
    row.Pairwise (fun x y => x.kind = y.kind → x.name ≠ y.name) ↔
      ∀ earlier y later, row = earlier ++ y :: later → ¬ Clashes earlier y := by
  constructor
  · rintro hpairs earlier y later rfl ⟨x, hx, hkind, hname⟩
    exact (List.pairwise_append.1 hpairs).2.2 x hx y List.mem_cons_self hkind hname
  · intro h
    induction row using List.reverseRecOn with
    | nil => exact List.Pairwise.nil
    | append_singleton row y ih =>
      rw [List.pairwise_append]
      refine ⟨ih ?_, List.pairwise_singleton _ _, ?_⟩
      · intro earlier z later hsplit
        exact h earlier z (later ++ [y]) (by rw [hsplit]; simp)
      · intro x hx z hz hkind hname
        rw [List.mem_singleton.1 hz] at hkind hname
        exact h row y [] rfl ⟨x, hx, hkind, hname⟩

end Naming

end Parse

/-! ## §3. Kinds of blocks before and after. -/

namespace Meaning

theorem ofTag?_ne_placeholder (tag : String) : BlockKind.ofTag? tag ≠ some .placeholder := by
  unfold BlockKind.ofTag?
  split <;> simp

theorem note_kind (m : Meaning) (node : Nat) (tag : String) :
    (m.note node tag).kind = m.kind.or (BlockKind.ofTag? tag) := by
  unfold note
  dsimp only
  split <;> split <;> rfl

section Kinds

variable {t : SyntaxTree} {table : CaptureTable} {node : Nat}

/-- No capture makes a node a placeholder. -/
theorem read_kind {search : Nat → Outcome (Option Meaning)}
    (hsearch : ∀ n m, search n = .ok (some m) → m.kind ≠ some .placeholder) (cs : List Capture)
    (m found : Meaning) (hm : m.kind ≠ some .placeholder)
    (h : read t search node true m cs = .ok (some found)) : found.kind ≠ some .placeholder := by
  induction cs generalizing m with
  | nil =>
    rw [read] at h
    split at h
    · obtain rfl : m = found := by simpa using h
      exact hm
    · exact absurd h (by simp)
  | cons c cs ih =>
    obtain ⟨-, a, ha, rfl⟩ | ⟨-, m', hm', hrest⟩ := read_cons h
    · exact hsearch c.node a ha
    · refine ih (m'.note c.node c.tag) ?_ hrest
      -- what is adopted from a node below leaves the kind alone
      have hkept : m'.kind = m.kind := by
        obtain rfl | ⟨-, a, -, rfl⟩ := hm'
        · rfl
        · rfl
      rw [note_kind, hkept]
      cases hkind : m.kind with
      | none => exact ofTag?_ne_placeholder c.tag
      | some kind =>
        rw [hkind] at hm
        exact hm

theorem search_kind {queries : List Query} :
    ∀ (fuel node : Nat) (m : Meaning),
      search t table queries fuel node = .ok (some m) → m.kind ≠ some .placeholder
  | 0, _, _, h => by
    rw [search] at h
    exact absurd h (by simp)
  | fuel + 1, node, found, h => by
    obtain ⟨q, -, m, hm, rfl⟩ := search_ok h
    exact read_kind (search_kind fuel) _ _ m (by simp) hm

theorem searchTweaks_kind {dialect : Dialect} {found : Meaning}
    (h : searchTweaks t table dialect node = .ok (some found)) :
    found.kind ≠ some .placeholder := by
  unfold searchTweaks at h
  obtain ⟨q, -, m, hm, rfl⟩ := firstAnswer_some _ h
  rw [read_false] at hm
  exact read_kind (fun n m => search_kind _ n m) _ _ m (by simp) hm

/-- **No node means a placeholder**: what stands for code left out becomes one later. -/
theorem ofNode_kind {dialect : Dialect} {tweaked : Bool} {m : Meaning}
    (h : ofNode t table dialect tweaked node = .ok m) : m.kind ≠ some .placeholder := by
  have hplain : ∀ m, (do
      return (← search t table dialect.queries (t.nodes.size + 1) node).getD unknown)
        = Except.ok m → m.kind ≠ some .placeholder := by
    intro m h
    rw [Outcome.bind_ok] at h
    obtain ⟨answer, hanswer, h⟩ := h
    obtain rfl := Outcome.pure_ok.1 h
    cases answer with
    | none => simp [unknown]
    | some found => exact search_kind _ _ _ hanswer
  unfold ofNode at h
  split at h
  · obtain rfl := Outcome.pure_ok.1 h
    simp [error]
  cases tweaked with
  | false => exact hplain m h
  | true =>
    change (searchTweaks t table dialect node >>= fun tweak => _) = _ at h
    rw [Outcome.bind_ok] at h
    obtain ⟨tweak, htweak, h⟩ := h
    cases tweak with
    | none => exact hplain m h
    | some found =>
      obtain rfl := Outcome.pure_ok.1 h
      exact searchTweaks_kind htweak

end Kinds

end Meaning

namespace Refine

open Parse (MayBeOmission)

theorem commentKind_cases (kind : BlockKind) (content : String) :
    commentKind kind content = kind ∨
      commentKind kind content = .placeholder ∧ MayBeOmission kind := by
  unfold commentKind
  split
  · rename_i hcomment
    simp only [Bool.and_eq_true, decide_eq_true_eq] at hcomment
    exact Or.inr ⟨rfl, Or.inl hcomment.1⟩
  · exact Or.inl rfl

theorem bodyKind_cases (kind : BlockKind) (children : List Block) :
    bodyKind kind children = kind ∨
      bodyKind kind children = .placeholder ∧ MayBeOmission kind := by
  unfold bodyKind
  split
  · split
    · rename_i hbody
      simp only [Bool.and_eq_true, Bool.or_eq_true, decide_eq_true_eq] at hbody
      exact Or.inr ⟨rfl, Or.inr hbody.1⟩
    · exact Or.inl rfl
  · exact Or.inl rfl

/-- What kind a block has after the blocks below it have been read. -/
theorem finalKind_cases (kind : BlockKind) (content : String) (children : List Block) :
    bodyKind (commentKind kind content) children = kind ∨
      bodyKind (commentKind kind content) children = .placeholder ∧ MayBeOmission kind := by
  obtain hcomment | ⟨hcomment, homission⟩ := commentKind_cases kind content
  · rw [hcomment]
    exact bodyKind_cases kind children
  · -- what is a placeholder already is neither a class nor a function
    rw [hcomment]
    obtain hbody | ⟨hbody, -⟩ := bodyKind_cases .placeholder children
    · exact Or.inr ⟨hbody, homission⟩
    · exact Or.inr ⟨hbody, homission⟩

theorem firstKind_ne_placeholder {kind : BlockKind} (h : kind ≠ .placeholder)
    (name : Option String) : firstKind kind name ≠ .placeholder := by
  unfold firstKind
  split
  · simp
  · exact h

end Refine

namespace Parse

open Block

variable {s : Setting} {p q : Progress} {node : Nat}

/-- Finishing a block leaves its name alone, and its kind too unless it becomes a placeholder. -/
theorem finish_kind {above : List OpenBlock} {d final : BlockData} {id : Nat}
    {children refined : List Block} (h : finish s above d id children p = .ok ((final, refined), q)) :
    final.name = d.name ∧
      (final.kind = d.kind ∨ final.kind = .placeholder ∧ MayBeOmission d.kind) := by
  unfold finish at h
  split at h
  · rw [get_bind_ok, modify_if] at h
    obtain ⟨heq, -⟩ := pure_ok.mp h
    obtain ⟨rfl, rfl⟩ := Prod.mk.inj heq
    exact ⟨rfl, Refine.finalKind_cases d.kind d.content children⟩
  · obtain ⟨heq, -⟩ := pure_ok.mp h
    obtain ⟨rfl, rfl⟩ := Prod.mk.inj heq
    exact ⟨rfl, Or.inl rfl⟩

/-! ## §4. Titles of nodes. -/

/-- What the block of a node is named by. -/
def titleAt (s : Setting) (node : Nat) : Outcome Title := do
  let m ← Meaning.ofNode s.tree s.captures s.dialect s.tweaked node
  let content ← Source.cut s.tree.source (s.tree.start node)
    (m.firstChild.elim (s.tree.stop node) (s.tree.endBefore node))
  let own ← m.identifier.mapM s.tree.text
  let kind := m.kind.getD .code
  return { kind := if s.dialect.refines then Refine.firstKind kind own else kind, content, own }

/-- The title of a block, by the node of its number. -/
def titleOf (s : Setting) (visited : List Nat) (x : Label) : Option Title :=
  visited[x.id]?.bind fun node => (titleAt s node).toOption

theorem titleAt_kind {t : Title} (h : titleAt s node = .ok t) : t.kind ≠ .placeholder := by
  unfold titleAt at h
  simp only [Outcome.bind_ok] at h
  obtain ⟨m, hm, content, -, own, -, ht⟩ := h
  rw [← Except.ok.inj ht]
  have hkind : m.kind.getD .code ≠ .placeholder := by
    cases hk : m.kind with
    | none => simp
    | some kind =>
      intro hplaceholder
      exact Meaning.ofNode_kind hm (by rw [hk, ← hplaceholder]; rfl)
  show (if s.dialect.refines then Refine.firstKind (m.kind.getD .code) own else _) ≠ _
  split
  · exact Refine.firstKind_ne_placeholder hkind own
  · exact hkind

/-- A block is named by its title among its siblings. -/
theorem namedData_titled {m : Meaning} {start : Int} {raw d : BlockData}
    {siblings : List (BlockKind × Option String)}
    (hm : Meaning.ofNode s.tree s.captures s.dialect s.tweaked node = .ok m)
    (hraw : blockData s m node start = .ok raw) (hd : namedData s m siblings raw = .ok d) :
    ∃ t, titleAt s node = .ok t ∧ d.kind = t.kind ∧ d.name = some (t.given siblings) := by
  unfold blockData at hraw
  simp only [Outcome.bind_ok] at hraw
  obtain ⟨gap, -, content, hcontent, own, hown, references, -, parameters, -, hraw⟩ := hraw
  have htitle : titleAt s node = .ok
      { kind := if s.dialect.refines then Refine.firstKind (m.kind.getD .code) own
          else m.kind.getD .code
        content, own } :=
    Outcome.bind_ok.2 ⟨m, hm,
      Outcome.bind_ok.2 ⟨content, hcontent, Outcome.bind_ok.2 ⟨own, hown, rfl⟩⟩⟩
  refine ⟨_, htitle, ?_⟩
  unfold namedData at hd
  rw [Outcome.bind_ok] at hd
  obtain ⟨made, hmade, hd⟩ := hd
  obtain ⟨gapLines, indentation, lines, rfl⟩ := make_changes hmade
  rw [← Except.ok.inj hd, ← uniqueName_eq, ← Except.ok.inj hraw]
  exact ⟨rfl, rfl⟩

theorem titleOf_mono {visited visited' : List Nat} (h : visited <+: visited') (x : Label)
    (t : Title) (ht : titleOf s visited x = some t) : titleOf s visited' x = some t := by
  obtain ⟨more, rfl⟩ := h
  unfold titleOf at ht ⊢
  obtain ⟨node, hnode, htitle⟩ := Option.bind_eq_some_iff.1 ht
  have hlt := (List.getElem?_eq_some_iff.1 hnode).1
  rw [List.getElem?_append_left hlt, hnode]
  exact htitle

/-! ## §5. Reading names the blocks of a row one after the other. -/

/-- The labels of the blocks right below each of the given ones. -/
def rowsOf (blocks : List Block) : List (List Label) :=
  blocks.map fun b => b.children.map labelOf

theorem rowsOf_append (xs ys : List Block) : rowsOf (xs ++ ys) = rowsOf xs ++ rowsOf ys :=
  List.map_append

theorem rowsOf_preorder (info : BlockInfo) (children : List Block) :
    rowsOf (preorder ⟨info, children⟩) = children.map labelOf :: rowsOf (preorderAll children) := by
  rw [preorder]
  rfl

/-- All rows were named. -/
def AllEntitled (s : Setting) (visited : List Nat) (rows : List (List Label)) : Prop :=
  ∀ row ∈ rows, EntitledRow (titleOf s visited) row

theorem AllEntitled.mono {visited visited' : List Nat} {rows : List (List Label)}
    (hrows : AllEntitled s visited rows) (h : visited <+: visited') :
    AllEntitled s visited' rows :=
  fun row hrow => (hrows row hrow).mono (titleOf_mono h)

/-- A way to read one block names it among its siblings, and names all that is below it. -/
def Names (s : Setting) (readOne : ReadOne) : Prop :=
  ∀ siblings node start current p read q, readOne siblings node start current p = .ok (read, q) →
    p.visited <+: q.visited ∧ Entitled (titleOf s q.visited) siblings (labelOf read.block)
      ∧ AllEntitled s q.visited (rowsOf read.block.preorder)

theorem readBelow_names {readOne : ReadOne} (hone : Names s readOne) {m : Meaning} {atTop : Bool}
    {span last : Option Nat} {below : Below}
    (h : readBelow s m node atTop readOne span p = .ok ((below, last), q)) :
    p.visited <+: q.visited ∧ EntitledRow (titleOf s q.visited) (below.children.map labelOf)
      ∧ AllEntitled s q.visited (rowsOf (preorderAll below.children)) := by
  refine readBelow_rule (fun below q => p.visited <+: q.visited
    ∧ EntitledRow (titleOf s q.visited) (below.children.map labelOf)
    ∧ AllEntitled s q.visited (rowsOf (preorderAll below.children))) ?_ ?_ h
  · intro stop
    refine ⟨List.prefix_rfl, EntitledRow.nil, ?_⟩
    intro row hrow
    cases hrow
  · intro node below p' read q' hinv hread
    obtain ⟨hgrown, hrow, hbelow⟩ := hinv
    obtain ⟨hmore, hself, hinside⟩ := hone _ _ _ _ _ _ _ hread
    rw [(noting_same _ _ _).visited]
    show _ ∧ EntitledRow _ ((below.children ++ [read.block]).map labelOf)
      ∧ AllEntitled _ _ (rowsOf (preorderAll (below.children ++ [read.block])))
    refine ⟨hgrown.trans hmore, ?_, ?_⟩
    · rw [List.map_append]
      refine (hrow.mono (titleOf_mono hmore)).concat ?_
      rw [← siblingNames_eq]
      exact hself
    · rw [preorderAll_append, preorderAll, preorderAll, List.append_nil, rowsOf_append]
      intro row hmem
      obtain hold | hnew := List.mem_append.1 hmem
      · exact hbelow.mono hmore row hold
      · exact hinside row hnew

/-- Finishing a block notes mistakes below it, and leaves numbers, kinds and names alone. -/
theorem finish_rows {above : List OpenBlock} {d final : BlockData} {id : Nat}
    {children refined : List Block}
    (h : finish s above d id children p = .ok ((final, refined), q)) :
    refined.map labelOf = children.map labelOf
      ∧ rowsOf (preorderAll refined) = rowsOf (preorderAll children) := by
  obtain rfl | rfl := (finish_changes h).2
  · exact ⟨rfl, rfl⟩
  · exact ⟨Refine.map_markAllRepeats (fun _ _ => rfl) children,
      Refine.map_blocks_markAllRepeats (fun _ _ => rfl) children⟩

/-- **Reading a node names its block among the siblings**, and the blocks below it among theirs. -/
theorem readNode_names : ∀ (fuel : Nat) (above : List OpenBlock), Names s (readNode s fuel above)
  | 0, _ => by
    intro siblings node start current p read q h
    exact absurd h not_throw_ok
  | fuel + 1, above => by
    intro siblings node start current p read q h
    obtain ⟨depth, m, raw, d, span, below, waited, spanIds, final, children, p₁, p₂, p₃, p₄, p₅,
      hdepth, hm, hraw, hd, henter, hnames, hbelow, hsettle, hfinish, hindex, -, hblock⟩ :=
      readNode_ok h
    obtain rfl : fuel = depth := by omega
    have hbegun : p₂.visited = p.visited ++ [node] :=
      (((enterBlock_keeps current _).same henter).trans ((recordNames_keeps _ _ _).same hnames)).visited
    have hended : q.visited = p₃.visited :=
      (((settleRest_keeps _ below.span).same hsettle).trans
        (((finish_keeps above _ _ _).same hfinish).trans ((index_keeps _).same hindex))).visited
    obtain ⟨hgrown, hrow, hinside⟩ := readBelow_names (readNode_names fuel _) hbelow
    rw [← hended, hbegun] at hgrown
    rw [← hended] at hrow hinside
    obtain ⟨hlabels, hrows⟩ := finish_rows hfinish
    refine ⟨(List.prefix_append _ _).trans hgrown, ?_, ?_⟩
    · -- the block has the number of its node, and the name and kind that finishing leaves it
      obtain ⟨t, ht, hkind, hname⟩ := namedData_titled hm hraw hd
      obtain ⟨hkeptName, hkeptKind⟩ := finish_kind hfinish
      refine ⟨t, ?_, ?_, titleAt_kind ht, ?_⟩
      · refine titleOf_mono hgrown _ _ ?_
        rw [hblock]
        show ((p.visited ++ [node])[p.visited.length]?.bind _) = _
        rw [List.getElem?_concat_length, Option.bind_some, ht]
        rfl
      · rw [hblock]
        exact hkeptName.trans hname
      · rw [hblock, ← hkind]
        exact hkeptKind
    · intro row hmem
      rw [hblock, rowsOf_preorder, hlabels, hrows] at hmem
      obtain rfl | hmem := List.mem_cons.1 hmem
      · exact hrow
      · exact hinside row hmem

/-! ## §6. Modules. -/

/-- The rows of a module: the blocks below each block were named one after the other.  Only below the
module itself there may be one more, for the blanks at its end. -/
theorem readRoot_rows {root : Block} (h : readRoot s {} = .ok (root, q)) :
    ∀ row ∈ rowsOf root.preorder, TrailedRow (titleOf s q.visited) row := by
  obtain ⟨m, raw, d, below, last, spanIds, final, children, p₁, p₂, -, -, -, hbelow, hfinish, hindex,
    hend⟩ := readRoot_ok h
  have hended : q.visited = p₁.visited :=
    (((finish_keeps [] _ _ _).same hfinish).trans ((index_keeps _).same hindex)).visited
  obtain ⟨-, hrow, hinside⟩ := readBelow_names (readNode_names _ _) hbelow
  rw [← hended] at hrow hinside
  obtain ⟨hlabels, hrows⟩ := finish_rows hfinish
  rw [← hlabels] at hrow
  rw [← hrows] at hinside
  intro row hmem
  obtain ⟨-, gap, space, -, hspace, rfl⟩ | ⟨-, rfl⟩ := hend
  · rw [rowsOf_preorder, preorderAll_append, rowsOf_append, List.mem_cons, List.mem_append] at hmem
    obtain rfl | hmem | hmem := hmem
    · refine Or.inr ⟨children.map labelOf, ⟨q.visited.length, space.kind, space.name⟩, ?_, hrow,
        ?_, ?_⟩
      · rw [List.map_append]
        rfl
      · -- its number is one that no node has
        unfold titleOf
        rw [List.getElem?_eq_none (Nat.le_refl _)]
        rfl
      · obtain ⟨gapLines, indentation, lines, rfl⟩ := make_changes hspace
        rfl
    · exact Or.inl (hinside row hmem)
    · obtain rfl : row = [] := List.mem_singleton.1 hmem
      exact Or.inl EntitledRow.nil
  · rw [rowsOf_preorder] at hmem
    obtain rfl | hmem := List.mem_cons.1 hmem
    · exact Or.inl hrow
    · exact Or.inl (hinside row hmem)

theorem labelOf_assignSpans (spanOf : Nat → Option Span) (b : Block) :
    labelOf (b.assignSpans spanOf) = labelOf b := by
  unfold labelOf
  rw [info_assignSpans]

/-- Spans are given out without any name being changed. -/
theorem rowsOf_assignSpans (spanOf : Nat → Option Span) (root : Block) :
    rowsOf (root.assignSpans spanOf).preorder = rowsOf root.preorder := by
  unfold rowsOf
  rw [preorder_assignSpans, List.map_map]
  refine List.map_congr_left fun b _ => ?_
  show (b.assignSpans spanOf).children.map labelOf = _
  rw [children_assignSpans, List.map_map]
  exact List.map_congr_left fun c _ => labelOf_assignSpans spanOf c

/-- **Names among siblings.**  A child of a block has the kind and the name of an earlier one just if
it repeats a name in one of the two ways; so the names of the children differ within each kind just
if none of them does. -/
theorem siblings_differ_exactly {module : Module} (h : parse s = .ok module) {b : Block}
    (hb : b ∈ module.root.preorder) :
    (b.children.Pairwise (fun x y => x.info.kind = y.info.kind → x.info.name ≠ y.info.name) ↔
      ∀ earlier y later, b.children.map labelOf = earlier ++ y :: later →
        ¬ Repeats (titleOf s module.visited) earlier y)
    ∧ ∀ earlier y later, b.children.map labelOf = earlier ++ y :: later →
      ((∃ x ∈ earlier, x.kind = y.kind ∧ x.name = y.name) ↔
        Repeats (titleOf s module.visited) earlier y) := by
  obtain ⟨root, p, hroot, rfl⟩ := parse_ok h
  have hrow : TrailedRow (titleOf s p.visited) (b.children.map labelOf) := by
    apply readRoot_rows hroot
    rw [← rowsOf_assignSpans p.ledger.spanOfBlock]
    exact List.mem_map_of_mem hb
  refine ⟨?_, fun earlier y later hsplit => hrow.clashes_iff hsplit⟩
  have hpairs := pairwise_differ_iff (b.children.map labelOf)
  rw [List.pairwise_map] at hpairs
  refine hpairs.trans ⟨?_, ?_⟩
  · intro hdiffer earlier y later hsplit hrepeats
    exact hdiffer earlier y later hsplit ((hrow.clashes_iff hsplit).2 hrepeats)
  · intro hnone earlier y later hsplit hclash
    exact hnone earlier y later hsplit ((hrow.clashes_iff hsplit).1 hclash)

/-- Three functions, of which the first is called what the third would be called with its number, and
two comments for code left out. -/
def repeatedNames : Setting :=
  { tree :=
      { source := "def f_2(): 0\ndef f(): 0\ndef f(): 0\n# ...\n# ...\n".toUTF8
        nodes := #[⟨none, "module", 0, 47⟩,
          ⟨some 0, "function_definition", 0, 12⟩, ⟨some 1, "identifier", 4, 7⟩,
          ⟨some 0, "function_definition", 13, 23⟩, ⟨some 3, "identifier", 17, 18⟩,
          ⟨some 0, "function_definition", 24, 34⟩, ⟨some 5, "identifier", 28, 29⟩,
          ⟨some 0, "comment", 35, 40⟩, ⟨some 0, "comment", 41, 46⟩] }
    captures :=
      [("python.scm:1", [⟨0, 0, "root"⟩, ⟨0, 1, "child.first"⟩, ⟨0, 1, "definition.module"⟩]),
       ("python.scm:5", [⟨1, 1, "root"⟩, ⟨1, 2, "identifier"⟩, ⟨1, 1, "definition.function"⟩,
         ⟨3, 3, "root"⟩, ⟨3, 4, "identifier"⟩, ⟨3, 3, "definition.function"⟩,
         ⟨5, 5, "root"⟩, ⟨5, 6, "identifier"⟩, ⟨5, 5, "definition.function"⟩]),
       ("python.scm:6", [⟨7, 7, "root"⟩, ⟨7, 7, "definition.comment"⟩,
         ⟨8, 8, "root"⟩, ⟨8, 8, "definition.comment"⟩])] }

theorem siblings_differ_exactly_repeatedNames :
    ∃ module, parse repeatedNames = .ok module ∧
      ¬ module.root.children.Pairwise
        (fun x y => x.info.kind = y.info.kind → x.info.name ≠ y.info.name) ∧
      Repeats (titleOf repeatedNames module.visited)
        [⟨1, .functionDef, some "f_2"⟩, ⟨2, .functionDef, some "f"⟩]
        ⟨3, .functionDef, some "f_2"⟩ ∧
      Repeats (titleOf repeatedNames module.visited)
        [⟨1, .functionDef, some "f_2"⟩, ⟨2, .functionDef, some "f"⟩,
          ⟨3, .functionDef, some "f_2"⟩, ⟨4, .placeholder, some "_"⟩]
        ⟨5, .placeholder, some "_"⟩ := by
  have hlabels : (parse repeatedNames).toOption.map (fun m => m.root.children.map labelOf)
      = some [⟨1, .functionDef, some "f_2"⟩, ⟨2, .functionDef, some "f"⟩,
          ⟨3, .functionDef, some "f_2"⟩, ⟨4, .placeholder, some "_"⟩, ⟨5, .placeholder, some "_"⟩,
          ⟨6, .space, none⟩] := by decide +kernel
  cases hmodule : parse repeatedNames with
  | error e =>
    rw [hmodule] at hlabels
    cases hlabels
  | ok module =>
    rw [hmodule] at hlabels
    have hrow := Option.some.inj hlabels
    obtain ⟨hdiffer, hexactly⟩ := siblings_differ_exactly hmodule (self_mem_preorder module.root)
    have hfunction := (hexactly [_, _] ⟨3, .functionDef, some "f_2"⟩ [_, _, _] hrow).1 (by decide)
    have hcomment := (hexactly [_, _, _, _] ⟨5, .placeholder, some "_"⟩ [_] hrow).1 (by decide)
    exact ⟨module, rfl, fun hall => hdiffer.1 hall _ _ _ hrow hfunction, hfunction, hcomment⟩

end Parse

end CodeAtlas

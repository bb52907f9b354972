import CodeAtlas.Proofs.Chunk.Coverage
import Mathlib.Data.List.Induction

/-!
# Which comments of a module reach a chunk

Where comments go with what follows them, a comment of a module waits until the next child fills a
chunk.  That child takes the comments along in all cases but one: if it is not divided, is too large
to open a chunk by the sizes alone, and no chunk is being filled, then the comments are dropped.
They are dropped as well if no such child follows, and if an earlier comment was of no use and no
child has filled a chunk since.

Main results:
  * `Chunk.Filling.next_keeps`: what one child does to a block that is taken or waits;
  * `Chunk.fill_keeps`: the same for a row of children, decided by the first that fills a chunk;
  * `Chunk.holders_divide`: how many chunks of a module hold a comment of it.
-/

namespace CodeAtlas.Chunk

open Block (preorder preorderAll descendants preorder_eq preorderAll_append)

/-! ## §1. The children of a module. -/

/-- The numbers of blocks. -/
def ids (blocks : List Block) : List Nat :=
  blocks.map fun b => b.info.id

/-- How many chunks hold a block. -/
def holders (b : Block) (chunks : List BlockChunk) : Nat :=
  chunks.countP fun chunk => (ids chunk).contains b.info.id

/-- Is the block a comment of no use? -/
def isUseless (b : Block) : Bool :=
  b.info.kind = .comment && isIgnored b.info.content

/-- A comment is kept if it is of use and does not stand in a run of comments behind one of no use.
`before` are the children in front of it. -/
structure IsKept (before : List Block) (c : Block) : Prop where
  ofUse : isIgnored c.info.content = false
  run : ∀ d ∈ before.reverse.takeWhile fun d => d.info.kind = .comment, isUseless d = false

/-- Does a child fill a chunk: is it no comment, and not too large by itself? -/
def fills (limits : ChunkLimits) (b : Block) : Bool :=
  b.info.kind ≠ .comment && b.info.tokens ≤ limits.maxSize

/-- Is a child of the module divided? -/
def isCut (limits : ChunkLimits) (module : BlockInfo) (b : Block) : Bool :=
  (isDivided b.info.kind && limits.minSize < b.totalTokens)
    || limits.maxSize < module.tokens + b.totalTokens

/-- Does a child of the module fit into a chunk that is still empty? -/
def fitsAlone (limits : ChunkLimits) (module : BlockInfo) (b : Block) : Bool :=
  (!isDivided module.kind && module.tokens + b.totalTokens < limits.maxSize)
    || module.tokens + b.totalTokens < limits.chunkSize

/-- Are comments left out behind these children?  They are from a comment of no use up to the next
child that fills a chunk. -/
def leavesOut (limits : ChunkLimits) (before : List Block) : Bool :=
  (before.reverse.takeWhile fun d => !fills limits d).any isUseless

/-- Is no chunk being filled behind these children?  None is before the first child that fills one,
and behind a child that was divided. -/
def standsEmpty (limits : ChunkLimits) (module : BlockInfo) (before : List Block) : Bool :=
  ((before.filter (fills limits)).getLast?).all (isCut limits module)

/-- Does a child that fills a chunk take the waiting comments along? -/
def takesAlong (limits : ChunkLimits) (module : BlockInfo) (empty : Bool) (b : Block) : Bool :=
  !empty || isCut limits module b || fitsAlone limits module b

/-- Is a comment dropped that stands between the children `before` and `after`? -/
def isDropped (limits : ChunkLimits) (module : BlockInfo) (before after : List Block) : Bool :=
  leavesOut limits before
    || !(after.find? (fills limits)).any (takesAlong limits module (standsEmpty limits module before))

theorem ids_append (xs ys : List Block) : ids (xs ++ ys) = ids xs ++ ids ys :=
  List.map_append

theorem leavesOut_concat (limits : ChunkLimits) (before : List Block) (b : Block) :
    leavesOut limits (before ++ [b]) = (!fills limits b && (leavesOut limits before || isUseless b)) := by
  unfold leavesOut
  rw [List.reverse_append, List.reverse_singleton, List.singleton_append, List.takeWhile_cons]
  cases fills limits b <;> simp [Bool.or_comm]

theorem standsEmpty_concat (limits : ChunkLimits) (module : BlockInfo) (before : List Block)
    (b : Block) :
    standsEmpty limits module (before ++ [b])
      = if fills limits b then isCut limits module b else standsEmpty limits module before := by
  unfold standsEmpty
  rw [List.filter_append]
  cases hfills : fills limits b <;> simp [hfills]

/-! ## §2. There is always a chunk. -/

theorem Filling.finish_ne_nil (limits : ChunkLimits) (f : Filling) : f.finish limits ≠ [] := by
  unfold finish
  split
  · split <;> simp
  · simp

/-- A block is divided into one chunk at least. -/
theorem divide_ne_nil (limits : ChunkLimits) (outer : Option Int) (b : Block) :
    divide limits outer b ≠ [] := by
  cases b
  rw [divide]
  exact joins_ne_nil (mergeRounds_joins _ limits _) (Filling.finish_ne_nil limits _)

/-! ## §3. One child. -/

namespace Filling

variable {limits : ChunkLimits} {module : BlockInfo} {f : Filling} {child : Block}

/-- The blocks of the chunks, without the comments that wait. -/
def taken (f : Filling) : List Block :=
  f.chunks.flatten ++ f.current

theorem verdict_of_fills (hfills : fills limits child = true) (top ignoring : Bool) :
    verdict limits top ignoring child = .take := by
  unfold fills at hfills
  simp only [Bool.and_eq_true, decide_eq_true_eq] at hfills
  unfold verdict
  rw [if_neg hfills.1, if_neg (by omega)]

/-- A child that fills a chunk is added, divided or whole. -/
theorem next_of_fills (hfills : fills limits child = true) :
    f.next limits module none child =
      if isCut limits module child then
        { f with ignoring := false }.addDivided
          (fun first => module.tokens + child.info.tokens + chunkTokens first < limits.maxSize) child
          (divide limits (some module.tokens) child)
      else
        { f with ignoring := false }.addWhole
          ((!isDivided module.kind
              && module.tokens + chunkTokens f.current + child.totalTokens < limits.maxSize)
            || module.tokens + chunkTokens f.current + child.totalTokens < limits.chunkSize) child := by
  have hverdict := verdict_of_fills hfills (none : Option Int).isNone f.ignoring
  unfold fills at hfills
  simp only [Bool.and_eq_true, decide_eq_true_eq] at hfills
  obtain ⟨hkind, -⟩ := hfills
  unfold next accept
  rw [hverdict]
  simp only [if_neg hkind, Option.getD_none, Int.add_zero]
  rfl

/-- Any other child fills nothing: a comment waits or is left out, and what is too large is left
out. -/
theorem next_of_not_fills (hassociate : limits.comments = .associate)
    (hfills : fills limits child = false) :
    f.next limits module none child =
      if child.info.kind = .comment then
        if f.ignoring || isUseless child then { f with ignoring := true }
        else { f with comments := f.comments ++ [child] }
      else f := by
  unfold next accept verdict isUseless
  by_cases hkind : child.info.kind = .comment
  · by_cases hleft : isIgnored child.info.content = true ∨ f.ignoring = true
    · have hleft' : f.ignoring = true ∨ isIgnored child.info.content = true := hleft.symm
      simp [hkind, hassociate, hleft, hleft']
    · have hleft' : ¬ (f.ignoring = true ∨ isIgnored child.info.content = true) :=
        fun h => hleft h.symm
      simp [hkind, hassociate, hleft, hleft']
  · have hsize : limits.maxSize < child.info.tokens := by
      simpa [fills, hkind] using hfills
    simp [hkind, hsize]

/-- Comments are left out behind the child as the children so far say. -/
theorem next_ignoring (hassociate : limits.comments = .associate) :
    (f.next limits module none child).ignoring
      = (!fills limits child && (f.ignoring || isUseless child)) := by
  cases hfills : fills limits child with
  | true =>
    rw [next_of_fills hfills]
    split
    · rw [addDivided_ignoring]
      rfl
    · rw [addWhole_ignoring]
      rfl
  | false =>
    rw [next_of_not_fills hassociate hfills]
    by_cases hkind : child.info.kind = .comment
    · rw [if_pos hkind]
      cases hleft : f.ignoring || isUseless child with
      | true => rfl
      | false =>
        show f.ignoring = false
        exact (Bool.or_eq_false_iff.mp hleft).1
    · simp [hkind, isUseless]

/-- A chunk is being filled behind a child that was added whole, and none behind one that was
divided. -/
theorem next_current (hassociate : limits.comments = .associate) :
    (f.next limits module none child).current.isEmpty
      = if fills limits child then isCut limits module child else f.current.isEmpty := by
  cases hfills : fills limits child with
  | true =>
    rw [next_of_fills hfills, if_pos rfl]
    cases hcut : isCut limits module child with
    | true =>
      rw [if_pos rfl]
      unfold addDivided
      dsimp only
      -- a divided child has chunks of its own, so the one being filled is closed
      cases hparts : divide limits (some module.tokens) child with
      | nil => exact absurd hparts (divide_ne_nil limits _ child)
      | cons first rest =>
        dsimp only
        split <;> rfl
    | false =>
      show (addWhole _ _ child).current.isEmpty = false
      unfold addWhole
      dsimp only
      split
      · simp
      · split <;> simp
  | false =>
    rw [next_of_not_fills hassociate hfills]
    split
    · split <;> rfl
    · rfl

theorem addDivided_taken (fits : BlockChunk → Bool) (parts : List BlockChunk) :
    (f.addDivided fits child parts).taken = f.taken ++ f.comments ++ child :: parts.flatten := by
  obtain ⟨hheld, hnone⟩ := f.addDivided_held fits child parts
  unfold held at hheld
  rw [hnone, List.append_nil] at hheld
  exact hheld

/-- A whole child takes the comments along if it fits, or if they can close the chunk before it. -/
theorem addWhole_taken (fits : Bool) :
    (f.addWhole fits child).taken
      = f.taken ++ (if fits || !f.current.isEmpty then f.comments else []) ++ preorder child := by
  rw [preorder_eq]
  unfold addWhole taken
  cases fits with
  | true => simp
  | false =>
    cases hcurrent : f.current with
    | nil => simp
    | cons first others => simp

/-- What a child that fills a chunk adds: the waiting comments if it takes them along, then a part of
itself and of what is below it.  No comment waits afterwards. -/
theorem next_taken (module : BlockInfo) (hfills : fills limits child = true) :
    (∃ own : List Block, own.Sublist (preorder child)
      ∧ (f.next limits module none child).taken
        = f.taken ++ (if takesAlong limits module f.current.isEmpty child then f.comments else [])
          ++ own)
    ∧ (f.next limits module none child).comments = [] := by
  rw [next_of_fills hfills]
  cases hcut : isCut limits module child with
  | true =>
    rw [if_pos rfl]
    refine ⟨⟨child :: (divide limits (some module.tokens) child).flatten, ?_, ?_⟩,
      (addDivided_held _ _ child _).2⟩
    · rw [preorder_eq]
      exact (divide_sublist limits _ child).cons_cons child
    · have htakes : takesAlong limits module f.current.isEmpty child = true := by
        simp [takesAlong, hcut]
      rw [addDivided_taken, if_pos htakes]
      rfl
  | false =>
    rw [if_neg (by simp)]
    refine ⟨⟨preorder child, List.Sublist.refl _, ?_⟩, (addWhole_held _ _ child).2.2⟩
    rw [addWhole_taken]
    -- an empty chunk holds no tokens, so that the sizes of module and child decide
    have hsame : (((!isDivided module.kind
              && decide (module.tokens + chunkTokens f.current + child.totalTokens < limits.maxSize))
            || decide (module.tokens + chunkTokens f.current + child.totalTokens < limits.chunkSize))
          || !f.current.isEmpty)
        = takesAlong limits module f.current.isEmpty child := by
      cases hcurrent : f.current with
      | nil =>
        have hempty : chunkTokens ([] : BlockChunk) = 0 := rfl
        simp [takesAlong, hcut, fitsAlone, hempty]
      | cons first others => simp [takesAlong]
    rw [← hsame]
    rfl

/-- **One child and a block elsewhere.**  A block that is taken stays so.  A comment that waits is
taken by a child that takes comments along, and waits no longer than to the next child that fills a
chunk. -/
theorem next_keeps (module : BlockInfo) (f : Filling) (hassociate : limits.comments = .associate) {k : Nat}
    (hk : k ∉ ids (preorder child)) :
    (k ∈ ids (f.next limits module none child).taken
      ↔ k ∈ ids f.taken ∨ (k ∈ ids f.comments ∧ fills limits child = true
        ∧ takesAlong limits module f.current.isEmpty child = true))
    ∧ (k ∈ ids (f.next limits module none child).comments
      ↔ k ∈ ids f.comments ∧ fills limits child = false) := by
  cases hfills : fills limits child with
  | true =>
    obtain ⟨⟨own, hown, htaken⟩, hnone⟩ := f.next_taken module hfills
    have hnot : k ∉ ids own := fun hmem => hk ((hown.map _).subset hmem)
    rw [htaken, hnone, ids_append, ids_append]
    refine ⟨?_, by simp [ids]⟩
    cases takesAlong limits module f.current.isEmpty child with
    | true => simp [hnot]
    | false =>
      have hnil : ids [] = [] := rfl
      simp [hnot, hnil]
  | false =>
    have hne : k ≠ child.info.id := by
      intro heq
      rw [preorder_eq] at hk
      exact hk (heq ▸ List.mem_cons_self)
    rw [next_of_not_fills hassociate hfills]
    split
    · split
      · simp [taken]
      · refine ⟨by simp [taken], ?_⟩
        show k ∈ ids (f.comments ++ [child]) ↔ _
        simp [ids, hne]
    · simp

end Filling

/-! ## §4. A row of children. -/

section Row

variable {limits : ChunkLimits} {module : BlockInfo}

theorem fill_append (outer : Option Int) (f : Filling) (xs ys : List Block) :
    fill limits module outer f (xs ++ ys)
      = fill limits module outer (fill limits module outer f xs) ys := by
  induction xs generalizing f with
  | nil => rw [List.nil_append, fill]
  | cons x xs ih => rw [List.cons_append, fill_cons, fill_cons, ih]

/-- What is known of the chunks behind the children so far, by these children alone. -/
theorem fill_state (module : BlockInfo) (hassociate : limits.comments = .associate)
    (before : List Block) :
    (fill limits module none {} before).ignoring = leavesOut limits before
    ∧ (fill limits module none {} before).current.isEmpty = standsEmpty limits module before := by
  induction before using List.reverseRecOn with
  | nil =>
    rw [fill]
    exact ⟨rfl, rfl⟩
  | append_singleton before child ih =>
    rw [fill_append, fill_cons, fill, Filling.next_ignoring hassociate,
      Filling.next_current hassociate, ih.1, ih.2, leavesOut_concat, standsEmpty_concat]
    exact ⟨rfl, rfl⟩

/-- **A row of children and a block elsewhere.**  The first child that fills a chunk decides whether
a comment that waits is taken. -/
theorem fill_keeps (hassociate : limits.comments = .associate) {k : Nat} (after : List Block)
    (f : Filling) (hk : k ∉ ids (preorderAll after)) :
    k ∈ ids (fill limits module none f after).taken
      ↔ k ∈ ids f.taken ∨ (k ∈ ids f.comments ∧
        (after.find? (fills limits)).any (takesAlong limits module f.current.isEmpty) = true) := by
  induction after generalizing f with
  | nil =>
    rw [fill]
    simp
  | cons child rest ih =>
    rw [preorderAll, ids_append, List.mem_append, not_or] at hk
    obtain ⟨htaken, hwaits⟩ := Filling.next_keeps module f hassociate hk.1
    rw [fill_cons, ih _ hk.2, htaken, hwaits, Filling.next_current hassociate]
    cases hfills : fills limits child with
    | true => simp [hfills]
    | false => simp [hfills]

end Row

/-! ## §5. The comments of a module. -/

/-- A block that stands once in all chunks together is held by one of them. -/
theorem holders_eq {b : Block} {chunks : List BlockChunk} (h : (ids chunks.flatten).Nodup) :
    holders b chunks = if b.info.id ∈ ids chunks.flatten then 1 else 0 := by
  induction chunks with
  | nil => rfl
  | cons chunk rest ih =>
    rw [List.flatten_cons, ids_append] at h ⊢
    obtain ⟨-, hrest, hapart⟩ := List.nodup_append.mp h
    have hcount : holders b (chunk :: rest)
        = holders b rest + if b.info.id ∈ ids chunk then 1 else 0 := by
      unfold holders
      rw [List.countP_cons]
      simp
    rw [hcount, ih hrest]
    by_cases hmem : b.info.id ∈ ids chunk
    · have hnot : b.info.id ∉ ids rest.flatten := fun hother => hapart _ hmem _ hother rfl
      simp [hmem, hnot]
    · simp [hmem]

/-- **How many chunks hold a comment of a module.**  Where comments go with what follows them, a
comment that is kept stands in exactly one chunk, unless it is dropped: behind a comment of no use
if no child has filled a chunk since, in front of no such child, or in front of one that opens a
chunk though it is neither divided nor small enough to fit into an empty one. -/
theorem holders_divide (limits : ChunkLimits) (hassociate : limits.comments = .associate)
    (module : Block) (hids : (ids module.descendants).Nodup) (before after : List Block) (c : Block)
    (hchildren : module.children = before ++ c :: after) (hcomment : c.info.kind = .comment)
    (hkept : IsKept before c) :
    holders c (divide limits none module)
      = if isDropped limits module.info before after then 0 else 1 := by
  have hrow : descendants module = preorderAll before ++ (preorder c ++ preorderAll after) := by
    rw [descendants, hchildren, preorderAll_append, preorderAll]
  have hsublist := (divide_sublist limits none module).map fun b => b.info.id
  have hflatten : (divide limits none module).flatten
      = (fill limits module.info none {} module.children).taken := divide_eq limits none module
  rw [holders_eq (hids.sublist hsublist)]
  -- the comment stands neither among the children before it nor among those behind it
  rw [hrow, ids_append, ids_append] at hids
  obtain ⟨-, hrest, hbefore⟩ := List.nodup_append.mp hids
  obtain ⟨-, -, hafter⟩ := List.nodup_append.mp hrest
  have hself : c.info.id ∈ ids (preorder c) := by
    rw [preorder_eq]
    exact List.mem_cons_self
  have hnotAfter : c.info.id ∉ ids (preorderAll after) := fun hmem => hafter _ hself _ hmem rfl
  have hnotBefore : c.info.id ∉ ids (preorderAll before) := fun hmem =>
    hbefore _ hmem _ (List.mem_append_left _ hself) rfl
  have hnotHeld : c.info.id ∉ ids (fill limits module.info none {} before).held := fun hmem =>
    hnotBefore (((fill_sublist limits module.info none {} before).map _).subset hmem)
  generalize hstate : fill limits module.info none {} before = f at hnotHeld
  obtain ⟨hignoring, hempty⟩ := fill_state module.info hassociate before
  rw [hstate] at hignoring hempty
  have hnotTaken : c.info.id ∉ ids f.taken := fun hmem =>
    hnotHeld (by rw [Filling.held, ids_append]; exact List.mem_append_left _ hmem)
  have hnotWaits : c.info.id ∉ ids f.comments := fun hmem =>
    hnotHeld (by rw [Filling.held, ids_append]; exact List.mem_append_right _ hmem)
  -- at its turn the comment waits or is left out
  have huseless : isUseless c = false := by simp [isUseless, hkept.ofUse]
  have hfills : fills limits c = false := by simp [fills, hcomment]
  have hnext : f.next limits module.info none c
      = if leavesOut limits before then { f with ignoring := true }
        else { f with comments := f.comments ++ [c] } := by
    rw [Filling.next_of_not_fills hassociate hfills, if_pos hcomment, huseless, Bool.or_false,
      hignoring]
  have hmem : c.info.id ∈ ids (divide limits none module).flatten
      ↔ isDropped limits module.info before after = false := by
    rw [hflatten, hchildren, fill_append, hstate, fill_cons, fill_keeps hassociate after _ hnotAfter,
      hnext]
    unfold isDropped
    cases leavesOut limits before with
    | true =>
      show c.info.id ∈ ids f.taken ∨ (c.info.id ∈ ids f.comments ∧ _) ↔ _
      simp [hnotTaken, hnotWaits]
    | false =>
      show c.info.id ∈ ids f.taken ∨ (c.info.id ∈ ids (f.comments ++ [c])
        ∧ (after.find? (fills limits)).any
            (takesAlong limits module.info f.current.isEmpty) = true) ↔ _
      rw [hempty, ids_append]
      have hlast : c.info.id ∈ ids [c] := List.mem_singleton_self _
      simp [hnotTaken, hlast]
  simp only [hmem]
  cases isDropped limits module.info before after <;> rfl

/-- A comment of a module of rates. -/
def rateNote (id : Nat) (content : String) : Block :=
  ⟨{ kind := .comment, content, tokens := 2, id, path := [] }, []⟩

/-- An assignment that is larger than a chunk is filled up to. -/
def rateLoad : Block :=
  ⟨{ kind := .assignment, content := "rate = load(config, 'rate')", tokens := 5, id := 2
     path := ["rate"] }, []⟩

/-- A class that is divided. -/
def rateTable : Block :=
  ⟨{ kind := .classDef, content := "class Table:", tokens := 2, id := 4, path := ["Table"] },
    [⟨{ kind := .code, content := "rows = 0", tokens := 3, id := 5, path := ["Table"] }, []⟩]⟩

/-- A module of an assignment and a class, with a comment in front of each and one at the end. -/
def rates : Block :=
  ⟨{ kind := .moduleDef, content := "", id := 0, path := [] },
    [rateNote 1 "# in percent", rateLoad, rateNote 3 "# by year", rateTable, rateNote 6 "# end"]⟩

/-- The comment in front of the assignment is dropped, and so is the one at the end; the comment in
front of the class is kept. -/
theorem holders_divide_rates :
    let limits : ChunkLimits := { chunkSize := 4, minSize := 1 }
    (divide limits none rates).map ids = [[2], [3, 4, 5]]
      ∧ holders (rateNote 1 "# in percent") (divide limits none rates) = 0
      ∧ holders (rateNote 3 "# by year") (divide limits none rates) = 1
      ∧ holders (rateNote 6 "# end") (divide limits none rates) = 0 := by
  intro limits
  have hids : (ids rates.descendants).Nodup := by decide +kernel
  refine ⟨by decide +kernel, ?_, ?_, ?_⟩
  · rw [holders_divide limits rfl rates hids []
      [rateLoad, rateNote 3 "# by year", rateTable, rateNote 6 "# end"] _ rfl rfl
      ⟨by decide +kernel, by decide +kernel⟩]
    decide +kernel
  · rw [holders_divide limits rfl rates hids [rateNote 1 "# in percent", rateLoad]
      [rateTable, rateNote 6 "# end"] _ rfl rfl ⟨by decide +kernel, by decide +kernel⟩]
    decide +kernel
  · rw [holders_divide limits rfl rates hids
      [rateNote 1 "# in percent", rateLoad, rateNote 3 "# by year", rateTable] [] _ rfl rfl
      ⟨by decide +kernel, by decide +kernel⟩]
    decide +kernel

end CodeAtlas.Chunk

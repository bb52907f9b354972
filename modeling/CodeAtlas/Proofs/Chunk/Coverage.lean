import CodeAtlas.Chunk.Split
import CodeAtlas.Proofs.Block.Preorder
import CodeAtlas.Proofs.Chunk.Joining

/-!
# Chunks cover a block

Dividing a block into chunks moves blocks between chunks and never past each other.  Joining small
chunks leaves the row of all their blocks as it is.  Filling chunks with the children of a block
takes each child with what is below it, or the child and the chunks it has been divided into, or
nothing; comments that wait are put in front of the next child or dropped.  So the chunks in a row
are a part of the blocks below the block, in document order, and where nothing is left out they are
all of them.

Main results:
  * `Chunk.mergeRounds_flatten`: joining chunks keeps the row of blocks;
  * `Chunk.Filling.next_held`: what one child adds to the chunks that are being filled;
  * `Chunk.divide_covers`: the chunks of a block against the blocks below it.
-/

namespace CodeAtlas.Chunk

open Block (preorder preorderAll descendants preorder_eq)

/-! ## §1. Joining keeps the row of blocks. -/

/-- Putting more at the end of the last chunk puts it at the end of the row. -/
theorem flatten_extendLast {α : Type} {chunks : List (List α)} {last : List α}
    (h : chunks.getLast? = some last) (more : List α) :
    (chunks.dropLast ++ [last ++ more]).flatten = chunks.flatten ++ more := by
  obtain ⟨front, rfl⟩ := List.getLast?_eq_some_iff.1 h
  simp

/-- **Joining keeps the row.**  However many rounds there are, the blocks stay in their order. -/
theorem mergeRounds_flatten {α : Type} (tokens : α → Int) (limits : ChunkLimits)
    (chunks : List (List α)) : (mergeRounds tokens limits chunks).flatten = chunks.flatten :=
  joins_flatten (mergeRounds_joins tokens limits chunks)

/-! ## §2. Filling keeps the order. -/

namespace Filling

/-- All blocks that have been taken: those of the chunks, then the comments that wait. -/
def held (f : Filling) : List Block :=
  f.chunks.flatten ++ f.current ++ f.comments

theorem finish_flatten (limits : ChunkLimits) (f : Filling) :
    (f.finish limits).flatten = f.chunks.flatten ++ f.current := by
  unfold finish
  cases hlast : f.chunks.getLast? with
  | none =>
    rw [List.getLast?_eq_none_iff.1 hlast]
    simp
  | some last =>
    dsimp only
    split
    · exact flatten_extendLast hlast f.current
    · simp

/-- A child that is not divided comes behind all that was taken.  Comments that wait are dropped if
the child does not fit and no chunk is being filled. -/
theorem addWhole_held (f : Filling) (fits : Bool) (child : Block) :
    (f.addWhole fits child).held.Sublist (f.held ++ preorder child) ∧
      (f.comments = [] → (f.addWhole fits child).held = f.held ++ preorder child) ∧
      (f.addWhole fits child).comments = [] := by
  rw [preorder_eq]
  unfold addWhole held
  cases fits with
  | true => simp
  | false =>
    cases hcurrent : f.current with
    | nil =>
      refine ⟨?_, ?_, by simp⟩
      · simp
      · intro hcomments
        simp [hcomments]
    | cons first others => simp

/-- A child that has been divided comes with its chunks behind all that was taken. -/
theorem addDivided_held (f : Filling) (fits : BlockChunk → Bool) (child : Block)
    (parts : List BlockChunk) :
    (f.addDivided fits child parts).held = f.held ++ child :: parts.flatten ∧
      (f.addDivided fits child parts).comments = [] := by
  have hclose : f.close.held = f.held ∧ f.close.current = [] := by
    unfold close held
    split
    · rename_i hempty
      exact ⟨rfl, List.isEmpty_iff.1 hempty⟩
    · simp
  rw [← hclose.1]
  unfold addDivided held
  cases parts with
  | nil => simp [hclose.2]
  | cons first rest =>
    dsimp only
    split <;> simp [hclose.2]

@[simp] theorem addWhole_ignoring (f : Filling) (fits : Bool) (child : Block) :
    (f.addWhole fits child).ignoring = f.ignoring := by
  unfold addWhole
  dsimp only
  split
  · rfl
  · split <;> rfl

@[simp] theorem close_ignoring (f : Filling) : f.close.ignoring = f.ignoring := by
  unfold close
  split <;> rfl

@[simp] theorem addDivided_ignoring (f : Filling) (fits : BlockChunk → Bool) (child : Block)
    (parts : List BlockChunk) : (f.addDivided fits child parts).ignoring = f.ignoring := by
  unfold addDivided
  cases parts with
  | nil => exact close_ignoring f
  | cons first rest =>
    dsimp only
    split <;> exact close_ignoring f

end Filling

/-- Filling goes from child to child. -/
theorem fill_cons (limits : ChunkLimits) (parent : BlockInfo) (outer : Option Int) (f : Filling)
    (child : Block) (rest : List Block) :
    fill limits parent outer f (child :: rest)
      = fill limits parent outer (f.next limits parent outer child) rest := by
  rw [fill, Filling.next]

/-- Is the block left in wherever it stands: a comment of use, or a piece that is not too large? -/
def IsLeftIn (limits : ChunkLimits) (b : Block) : Prop :=
  (b.info.kind = .comment → isIgnored b.info.content = false) ∧
    (b.info.kind ≠ .comment → b.info.tokens ≤ limits.maxSize)

/-- Where comments are kept, what is left in is taken at once. -/
theorem verdict_take {limits : ChunkLimits} (hkeep : limits.comments = .keep) {child : Block}
    (hchild : IsLeftIn limits child) (top : Bool) : verdict limits top false child = .take := by
  unfold verdict
  by_cases hkind : child.info.kind = .comment
  · simp [hkind, hkeep, hchild.1 hkind]
  · have hsize := hchild.2 hkind
    rw [if_neg hkind, if_neg (by omega)]

namespace Filling

variable {limits : ChunkLimits} {parent : BlockInfo} (outer : Option Int) {f : Filling}
  {child : Block}

/-- **One child.**  It adds a part of itself and of what is below it, if its own chunks are a part
of what is below it. -/
theorem next_held (hparts : (divide limits (some parent.tokens) child).flatten.Sublist
      child.descendants) :
    (f.next limits parent outer child).held.Sublist (f.held ++ preorder child) := by
  unfold next accept
  cases verdict limits outer.isNone f.ignoring child with
  | skip => exact List.sublist_append_left _ _
  | skipIgnoring => exact List.sublist_append_left _ _
  | wait =>
    show (f.chunks.flatten ++ f.current ++ (f.comments ++ [child])).Sublist _
    rw [preorder_eq, ← List.append_assoc]
    exact (List.Sublist.refl _).append (List.singleton_sublist.2 List.mem_cons_self)
  | take =>
    dsimp only
    generalize hg : (if child.info.kind = .comment then f else { f with ignoring := false }) = g
    have hheld : g.held = f.held := by
      rw [← hg]
      split <;> rfl
    rw [← hheld]
    split
    · rw [(addDivided_held g _ child _).1, preorder_eq]
      exact (List.Sublist.refl _).append (hparts.cons_cons child)
    · exact (addWhole_held g _ child).1

/-- A child of which nothing is left out adds itself and all that is below it. -/
theorem next_held_all (hkeep : limits.comments = .keep) (hchild : IsLeftIn limits child)
    (hcomments : f.comments = []) (hignoring : f.ignoring = false)
    (hparts : (divide limits (some parent.tokens) child).flatten = child.descendants) :
    (f.next limits parent outer child).held = f.held ++ preorder child ∧
      (f.next limits parent outer child).comments = [] ∧
      (f.next limits parent outer child).ignoring = false := by
  unfold next accept
  rw [hignoring, verdict_take hkeep hchild]
  dsimp only
  generalize hg : (if child.info.kind = .comment then f else { f with ignoring := false }) = g
  have hheld : g.held = f.held ∧ g.comments = [] ∧ g.ignoring = false := by
    rw [← hg]
    split
    · exact ⟨rfl, hcomments, hignoring⟩
    · exact ⟨rfl, hcomments, rfl⟩
  rw [← hheld.1]
  split
  · obtain ⟨hadded, hnone⟩ := addDivided_held g _ child (divide limits (some parent.tokens) child)
    rw [hadded, preorder_eq, hparts]
    exact ⟨rfl, hnone, by rw [addDivided_ignoring, hheld.2.2]⟩
  · obtain ⟨-, hadded, hnone⟩ := addWhole_held g _ child
    exact ⟨hadded hheld.2.1, hnone, by rw [addWhole_ignoring, hheld.2.2]⟩

end Filling

/-! ## §3. Chunks of a whole tree. -/

theorem divide_eq (limits : ChunkLimits) (outer : Option Int) (b : Block) :
    (divide limits outer b).flatten
      = (fill limits b.info outer {} b.children).chunks.flatten
        ++ (fill limits b.info outer {} b.children).current := by
  cases b
  rw [divide, mergeRounds_flatten, Filling.finish_flatten]

mutual

/-- The chunks of a block are a part of the blocks below it, in document order. -/
theorem divide_sublist (limits : ChunkLimits) (outer : Option Int) :
    (b : Block) → (divide limits outer b).flatten.Sublist b.descendants
  | ⟨info, children⟩ => by
    have hfill := fill_sublist limits info outer {} children
    rw [divide_eq]
    -- the comments that still wait at the end are dropped
    exact (List.sublist_append_left _ _).trans hfill

theorem fill_sublist (limits : ChunkLimits) (parent : BlockInfo) (outer : Option Int)
    (f : Filling) : (children : List Block) →
      (fill limits parent outer f children).held.Sublist (f.held ++ preorderAll children)
  | [] => by
    rw [fill]
    exact List.sublist_append_left _ _
  | child :: rest => by
    have hparts := divide_sublist limits (some parent.tokens) child
    have hrest := fill_sublist limits parent outer (f.next limits parent outer child) rest
    rw [fill_cons, preorderAll, ← List.append_assoc]
    exact hrest.trans ((Filling.next_held outer hparts).append (List.Sublist.refl _))

end

mutual

/-- Where nothing is left out, the chunks of a block are all the blocks below it. -/
theorem divide_all (limits : ChunkLimits) (hkeep : limits.comments = .keep) (outer : Option Int) :
    (b : Block) → (∀ d ∈ b.descendants, IsLeftIn limits d) →
      (divide limits outer b).flatten = b.descendants
  | ⟨info, children⟩, hall => by
    obtain ⟨hheld, hcomments⟩ := fill_all limits hkeep info outer {} rfl rfl children hall
    rw [Filling.held, hcomments, List.append_nil] at hheld
    rw [divide_eq, hheld]
    rfl

theorem fill_all (limits : ChunkLimits) (hkeep : limits.comments = .keep) (parent : BlockInfo)
    (outer : Option Int) (f : Filling) (hcomments : f.comments = [])
    (hignoring : f.ignoring = false) : (children : List Block) →
      (∀ d ∈ preorderAll children, IsLeftIn limits d) →
      (fill limits parent outer f children).held = f.held ++ preorderAll children ∧
        (fill limits parent outer f children).comments = []
  | [], _ => by
    rw [fill, preorderAll, List.append_nil]
    exact ⟨rfl, hcomments⟩
  | child :: rest, hall => by
    obtain ⟨info, below⟩ := child
    rw [preorderAll, preorder, List.cons_append, List.forall_mem_cons,
      List.forall_mem_append] at hall
    obtain ⟨hchild, hbelow, hothers⟩ := hall
    have hparts := divide_all limits hkeep (some parent.tokens) ⟨info, below⟩ hbelow
    obtain ⟨hheld, hcomments', hignoring'⟩ :=
      Filling.next_held_all outer hkeep hchild hcomments hignoring hparts
    obtain ⟨hrest, hnone⟩ := fill_all limits hkeep parent outer _ hcomments' hignoring' rest hothers
    rw [fill_cons, hrest, hheld, preorderAll, List.append_assoc]
    exact ⟨rfl, hnone⟩

end

/-- **No block is lost, repeated or moved.**  Under any limits, the chunks of a block in a row are a
part of the blocks below it in document order, so that a block stands in them once at most.  If
comments are kept, none of them is of no use, and no other block is larger than a chunk may be, then
the chunks in a row are all the blocks below it. -/
theorem divide_covers (limits : ChunkLimits) (outer : Option Int) (b : Block) :
    (divide limits outer b).flatten.Sublist b.descendants ∧
      ((b.descendants.map (·.info.id)).Nodup →
        ((divide limits outer b).flatten.map (·.info.id)).Nodup) ∧
      (limits.comments = .keep →
        (∀ d ∈ b.descendants, d.info.kind = .comment → isIgnored d.info.content = false) →
        (∀ d ∈ b.descendants, d.info.kind ≠ .comment → d.info.tokens ≤ limits.maxSize) →
        (divide limits outer b).flatten = b.descendants) := by
  have hsublist := divide_sublist limits outer b
  refine ⟨hsublist, ?_, ?_⟩
  · intro hnodup
    exact hnodup.sublist (hsublist.map _)
  · intro hkeep hcomments hsizes
    apply divide_all limits hkeep outer b
    intro d hd
    exact ⟨hcomments d hd, hsizes d hd⟩

/-- A module with a comment, a class whose two functions are too large for one chunk, and a
statement. -/
def classOfTwo : Block :=
  ⟨{ kind := .moduleDef, content := "", id := 0, path := [] },
    [⟨{ kind := .comment, content := "# shapes", tokens := 2, id := 1, path := [] }, []⟩,
     ⟨{ kind := .classDef, content := "class Shape:", tokens := 2, id := 2, path := ["Shape"] },
      [⟨{ kind := .functionDef, content := "def area(self):", tokens := 3, id := 3
          path := ["Shape", "area"] },
        [⟨{ kind := .code, content := "return self.side ** 2", tokens := 4, id := 4
            path := ["Shape", "area"] }, []⟩]⟩,
       ⟨{ kind := .functionDef, content := "def name(self):", tokens := 3, id := 5
          path := ["Shape", "name"] },
        [⟨{ kind := .code, content := "return 'shape'", tokens := 3, id := 6
            path := ["Shape", "name"] }, []⟩]⟩]⟩,
     ⟨{ kind := .code, content := "Shape()", tokens := 1, id := 7, path := [] }, []⟩]⟩

/-- The statement at the end joins the chunk of the second function. -/
theorem divide_covers_classOfTwo :
    let limits : ChunkLimits :=
      { chunkSize := 6, minSize := 2, maxSize := 10, hardLimit := 9, comments := .keep }
    (divide limits none classOfTwo).map (·.map (·.info.id)) = [[1], [2, 3, 4], [5, 6, 7]] ∧
      (divide limits none classOfTwo).flatten = classOfTwo.descendants :=
  ⟨by decide +kernel, (divide_covers _ none classOfTwo).2.2 rfl (by decide +kernel)
    (by decide +kernel)⟩

end CodeAtlas.Chunk

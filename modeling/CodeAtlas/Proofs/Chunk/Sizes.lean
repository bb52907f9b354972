import CodeAtlas.Proofs.Chunk.Steps
import Mathlib.Algebra.Order.Ring.Int
import Mathlib.Tactic.GCongr

/-!
# How large chunks get

The size of a chunk is checked when a child is to go into it, when the first chunk of a divided child
is to join it, and when it is joined with a neighbour, each time against another limit.  One place
checks nothing: what is left over at the end of a level, if it is smaller than the least size of a
chunk, is put behind the last chunk, however large that one is.  Such a rest can come once per level,
so the height of the tree bounds what is added to the limits.

Comments that wait for the next block are not counted, so the bound is for the other two ways to
treat comments.

Main results:
  * `Chunk.mergeRounds_sizes`: joining makes nothing larger than the hard limit;
  * `Chunk.Filling.Within.step`: what one child does to the sizes;
  * `Chunk.divide_tokens_le`: the bound for a whole tree.
-/

namespace CodeAtlas.Chunk

open Block (preorder preorderAll preorder_eq preorderAll_append height heightAll)

/-! ## §1. Sizes. -/

theorem chunkTokens_append (xs ys : BlockChunk) :
    chunkTokens (xs ++ ys) = chunkTokens xs + chunkTokens ys :=
  tally_append _ xs ys

theorem chunkTokens_cons (b : Block) (bs : BlockChunk) :
    chunkTokens (b :: bs) = b.info.tokens + chunkTokens bs :=
  rfl

/-- A chunk was there before joining, or it is within the hard limit. -/
theorem mergeRounds_sizes {α : Type} (tokens : α → Int) (limits : ChunkLimits)
    (chunks : List (List α)) {chunk : List α} (h : chunk ∈ mergeRounds tokens limits chunks) :
    chunk ∈ chunks ∨ tokenSum tokens chunk ≤ limits.hardLimit := by
  obtain ⟨runs, hruns, hmerged⟩ := runs_of_joins (mergeRounds_joins tokens limits chunks)
  rw [hmerged] at h
  obtain ⟨run, hrun, rfl⟩ := List.mem_map.1 h
  match run, hrun with
  | [], hrun => exact absurd rfl (hruns.nonempty [] hrun)
  | [single], hrun =>
    left
    rw [← hruns.row, List.flatten_singleton]
    exact List.mem_flatten.2 ⟨[single], hrun, List.mem_singleton_self _⟩
  | first :: second :: others, hrun => exact Or.inr (hruns.fits _ hrun (by simp))

/-! ## §2. Filling chunks. -/

namespace Filling

/-- The finished chunks are within a bound, the chunk being filled is no larger than the largest size
of a piece, and no comments wait. -/
structure Within (limits : ChunkLimits) (bound : Int) (f : Filling) : Prop where
  chunks : ∀ chunk ∈ f.chunks, chunkTokens chunk ≤ bound
  current : chunkTokens f.current ≤ limits.maxSize
  comments : f.comments = []

variable {limits : ChunkLimits} {parent : BlockInfo} {outer : Option Int} {bound : Int}
  {f g : Filling} {child : Block}

theorem Within.close (within : f.Within limits bound) (hbound : limits.maxSize ≤ bound) :
    ∀ chunk ∈ f.close.chunks, chunkTokens chunk ≤ bound := by
  intro chunk hchunk
  rw [close_chunks] at hchunk
  split at hchunk
  · exact within.chunks chunk hchunk
  · obtain hchunk | hchunk := List.mem_append.1 hchunk
    · exact within.chunks chunk hchunk
    · rw [List.mem_singleton.1 hchunk]
      have := within.current
      omega

/-- **One child.**  The sizes are checked where it goes into a chunk or the first of its own chunks
goes with it; its other chunks are within the bound already. -/
theorem Within.step (within : f.Within limits bound) (hcomments : limits.comments ≠ .associate)
    (hzero : 0 ≤ limits.maxSize) (hbound : limits.maxSize ≤ bound)
    (hsizes : limits.chunkSize ≤ limits.maxSize) (haround : 0 ≤ around parent outer)
    (hchild : child.info.tokens ≤ limits.maxSize)
    (hparts : ∀ chunk ∈ divide limits (some parent.tokens) child, chunkTokens chunk ≤ bound)
    (h : Step limits parent outer f child g) : g.Within limits bound := by
  have hempty : chunkTokens [] = 0 := rfl
  cases h with
  | passes _ => exact within
  | ignores _ => exact ⟨within.chunks, within.current, within.comments⟩
  | waits hverdict => exact absurd (of_verdict_wait hverdict).2.1 hcomments
  | joins _ hfits =>
    refine ⟨within.chunks, ?_, rfl⟩
    show chunkTokens (f.current ++ f.comments ++ preorder child) ≤ _
    have hsize : chunkTokens (preorder child) = child.totalTokens := rfl
    rw [within.comments, List.append_nil, chunkTokens_append, hsize]
    omega
  | opens _ hfits =>
    refine ⟨?_, ?_, rfl⟩
    · rw [within.comments, List.append_nil, ← close_chunks]
      exact within.close hbound
    · show child.totalTokens ≤ _
      omega
  | absorbs _ hdivide hfits =>
    rw [hdivide] at hparts
    refine ⟨?_, hzero, rfl⟩
    intro chunk hchunk
    obtain hchunk | hchunk := List.mem_append.1 hchunk
    · exact within.close hbound chunk hchunk
    obtain rfl | hchunk := List.mem_cons.1 hchunk
    · rw [within.comments, List.nil_append, chunkTokens_cons]
      omega
    · exact hparts chunk (List.mem_cons_of_mem _ hchunk)
  | parts _ hdivide hfits =>
    rw [hdivide] at hparts
    refine ⟨?_, hzero, rfl⟩
    intro chunk hchunk
    obtain hchunk | hchunk := List.mem_append.1 hchunk
    · exact within.close hbound chunk hchunk
    obtain rfl | hchunk := List.mem_cons.1 hchunk
    · rw [within.comments, List.nil_append, chunkTokens_cons, hempty]
      omega
    · exact hparts chunk hchunk

/-- At the end of a level, what is left over may go behind the last chunk unchecked. -/
theorem Within.finish (within : f.Within limits bound) (hbound : limits.maxSize ≤ bound)
    (hmin : 0 ≤ limits.minSize) :
    ∀ chunk ∈ f.finish limits, chunkTokens chunk ≤ bound + limits.minSize := by
  have hcurrent := within.current
  intro chunk hchunk
  unfold Filling.finish at hchunk
  cases hlast : f.chunks.getLast? with
  | none =>
    rw [hlast] at hchunk
    rw [List.mem_singleton.1 hchunk]
    omega
  | some last =>
    have hbounded := within.chunks last (List.mem_of_getLast? hlast)
    simp only [hlast] at hchunk
    split at hchunk
    · rename_i hsmall
      obtain hchunk | hchunk := List.mem_append.1 hchunk
      · have := within.chunks chunk (List.dropLast_subset _ hchunk)
        omega
      · rw [List.mem_singleton.1 hchunk, chunkTokens_append]
        omega
    · obtain hchunk | hchunk := List.mem_append.1 hchunk
      · have := within.chunks chunk hchunk
        omega
      · rw [List.mem_singleton.1 hchunk]
        omega

end Filling

/-! ## §3. A whole tree. -/

/-- The children of a block, if their own chunks are within the bound. -/
theorem fill_within {limits : ChunkLimits} {parent : BlockInfo} {outer : Option Int} {bound : Int}
    {children : List Block} (hcomments : limits.comments ≠ .associate)
    (hzero : 0 ≤ limits.maxSize) (hbound : limits.maxSize ≤ bound)
    (hsizes : limits.chunkSize ≤ limits.maxSize) (haround : 0 ≤ Filling.around parent outer)
    (hchildren : ∀ child ∈ children, child.info.tokens ≤ limits.maxSize ∧
      ∀ chunk ∈ divide limits (some parent.tokens) child, chunkTokens chunk ≤ bound) :
    (fill limits parent outer {} children).Within limits bound := by
  apply fill_rule (P := fun _ f => f.Within limits bound)
  · exact ⟨by simp, hzero, rfl⟩
  · intro before child hpre f g within hstep
    obtain ⟨hchild, hparts⟩ := hchildren child (hpre.subset (by simp))
    exact within.step hcomments hzero hbound hsizes haround hchild hparts hstep

/-- What is around a child has no tokens below zero. -/
theorem around_nonneg {parent : BlockInfo} {outer : Option Int} (hparent : 0 ≤ parent.tokens)
    (houter : ∀ t ∈ outer, 0 ≤ t) : 0 ≤ Filling.around parent outer := by
  unfold Filling.around
  cases outer with
  | none => simpa using hparent
  | some t =>
    have := houter t rfl
    simp only [Option.getD_some]
    omega

/-- There is nothing below a block of height zero, and its only chunk is empty. -/
theorem unjoined_of_height_zero {limits : ChunkLimits} {outer : Option Int} {b : Block}
    (h : b.height = 0) : unjoined limits outer b = [[]] := by
  have hnone : b.children = [] := by
    apply List.eq_nil_iff_forall_not_mem.2
    intro c hc
    have := Block.height_lt_of_child hc
    omega
  rw [unjoined, hnone, fill]
  rfl

/-- **The bound.**  Where comments do not wait, a chunk is no larger than the larger one of the hard
limit and the largest size of a piece, and one least size more for each level of the tree. -/
theorem divide_tokens_le (limits : ChunkLimits)
    (hcomments : limits.comments = .keep ∨ limits.comments = .leaveOut)
    (hmin : 0 ≤ limits.minSize) (hsizes : limits.chunkSize ≤ limits.maxSize) (b : Block)
    (htokens : ∀ d ∈ preorder b, 0 ≤ d.info.tokens ∧ d.info.tokens ≤ limits.maxSize)
    (outer : Option Int) (houter : ∀ t ∈ outer, 0 ≤ t) :
    ∀ chunk ∈ divide limits outer b,
      chunkTokens chunk ≤ max limits.hardLimit limits.maxSize + b.height * limits.minSize := by
  have hassociate : limits.comments ≠ .associate := by
    obtain h | h := hcomments <;> simp [h]
  induction b using Block.tree_induction generalizing outer with
  | node b ih =>
    have hown := htokens b b.self_mem_preorder
    have hzero : 0 ≤ limits.maxSize := Int.le_trans hown.1 hown.2
    intro chunk hchunk
    rw [divide_eq_joined] at hchunk
    obtain hchunk | hjoined := mergeRounds_sizes _ limits _ hchunk
    · cases hheight : b.height with
      | zero =>
        rw [unjoined_of_height_zero hheight] at hchunk
        rw [List.mem_singleton.1 hchunk]
        show (0 : Int) ≤ max limits.hardLimit limits.maxSize + (0 : Nat) * limits.minSize
        rw [Nat.cast_zero, Int.zero_mul]
        omega
      | succ n =>
        have hrest := Int.mul_nonneg (Int.natCast_nonneg n) hmin
        have hbound : limits.maxSize ≤ max limits.hardLimit limits.maxSize + n * limits.minSize := by
          omega
        -- the chunks of the children are bounded by their own, smaller height
        have hchildren : ∀ child ∈ b.children, child.info.tokens ≤ limits.maxSize ∧
            ∀ part ∈ divide limits (some b.info.tokens) child,
              chunkTokens part ≤ max limits.hardLimit limits.maxSize + n * limits.minSize := by
          intro child hchild
          have hbelow : ∀ d ∈ preorder child, 0 ≤ d.info.tokens ∧ d.info.tokens ≤ limits.maxSize := by
            intro d hd
            apply htokens d
            rw [preorder_eq]
            exact List.mem_cons_of_mem _ (Block.mem_descendants_of_child hchild hd)
          refine ⟨(hbelow child child.self_mem_preorder).2, ?_⟩
          intro part hpart
          have hlower : child.height ≤ n := by
            have := Block.height_lt_of_child hchild
            omega
          calc chunkTokens part
              ≤ max limits.hardLimit limits.maxSize + child.height * limits.minSize :=
                ih child hchild hbelow _ (by simpa using hown.1) part hpart
            _ ≤ max limits.hardLimit limits.maxSize + n * limits.minSize := by gcongr
        have hwithin := fill_within hassociate hzero hbound hsizes (around_nonneg hown.1 houter) hchildren
        have hle := hwithin.finish hbound hmin chunk hchunk
        rw [Nat.cast_succ, Int.add_mul, Int.one_mul]
        omega
    · have hle : chunkTokens chunk ≤ limits.hardLimit := hjoined
      have := Int.mul_nonneg (Int.natCast_nonneg b.height) hmin
      omega

/-- A class with a long method, and something short behind the method and behind the class. -/
def shortEnds : Block :=
  ⟨{ kind := .moduleDef, content := "", id := 0, path := [] },
    [⟨{ kind := .classDef, content := "class Shape:", tokens := 1, id := 1, path := ["Shape"] },
      [⟨{ kind := .functionDef, content := "def area(self): return self.side ** 2", tokens := 8, id := 2
          path := ["Shape", "area"] }, []⟩,
       ⟨{ kind := .code, content := "side = 1", tokens := 2, id := 3, path := ["Shape"] }, []⟩]⟩,
     ⟨{ kind := .code, content := "Shape()", tokens := 2, id := 4, path := [] }, []⟩]⟩

/-- The rests of both levels end up behind the method, and make a chunk that is larger than all
limits. -/
theorem divide_tokens_le_shortEnds :
    let limits : ChunkLimits :=
      { chunkSize := 10, minSize := 3, maxSize := 10, hardLimit := 10, comments := .keep }
    (divide limits none shortEnds).map (·.map (·.info.id)) = [[1], [2, 3, 4]] ∧
      (divide limits none shortEnds).map chunkTokens = [1, 12] ∧ shortEnds.height = 2 ∧
      ∀ chunk ∈ divide limits none shortEnds,
        chunkTokens chunk ≤ max limits.hardLimit limits.maxSize + shortEnds.height * limits.minSize :=
  ⟨by decide +kernel, by decide +kernel, by decide +kernel,
    divide_tokens_le _ (Or.inl rfl) (by decide) (by decide) shortEnds (by decide +kernel) none
      (by simp)⟩

end CodeAtlas.Chunk

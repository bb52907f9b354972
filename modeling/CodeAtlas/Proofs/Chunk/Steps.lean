import CodeAtlas.Proofs.Chunk.Comments

/-!
# What one child does to the chunks

Chunks are filled child by child.  A child is left out, or waits with other comments, or goes into the
chunk being filled, or opens the next one, or it is divided; then the chunk being filled is closed, and
the child stands in front of its own chunks, of which the first may go with it.  This is said here
once, and so is the induction from child to child, for the statements about the sizes of chunks and
about empty chunks.

Main results:
  * `Chunk.Filling.next_step`: the seven things that a child can do;
  * `Chunk.fill_rule`: what each step keeps holds at the end of a level.
-/

namespace CodeAtlas.Chunk

open Block (preorder preorderAll preorder_eq)

namespace Filling

/-- The tokens around a child: those of its parent, and of the parent of that one. -/
def around (parent : BlockInfo) (outer : Option Int) : Int :=
  parent.tokens + outer.getD 0

/-- What a child of a block can do to the chunks being filled. -/
inductive Step (limits : ChunkLimits) (parent : BlockInfo) (outer : Option Int) (f : Filling)
    (child : Block) : Filling → Prop
  /-- It is left out. -/
  | passes : verdict limits outer.isNone f.ignoring child = .skip → Step limits parent outer f child f
  /-- It is a comment that is left out, and further comments are to be left out too. -/
  | ignores : verdict limits outer.isNone f.ignoring child = .skipIgnoring →
    Step limits parent outer f child { f with ignoring := true }
  /-- It is a comment, and is to go with what follows it. -/
  | waits : verdict limits outer.isNone f.ignoring child = .wait →
    Step limits parent outer f child { f with comments := f.comments ++ [child] }
  /-- It goes into the chunk being filled, with all below it. -/
  | joins {ignoring : Bool} : verdict limits outer.isNone f.ignoring child = .take →
    around parent outer + chunkTokens f.current + child.totalTokens < limits.maxSize ∨
      around parent outer + chunkTokens f.current + child.totalTokens < limits.chunkSize →
    Step limits parent outer f child
      { chunks := f.chunks, current := f.current ++ f.comments ++ preorder child, ignoring }
  /-- It opens the next chunk, with all below it. -/
  | opens {ignoring : Bool} : verdict limits outer.isNone f.ignoring child = .take →
    around parent outer + child.totalTokens ≤ limits.maxSize →
    Step limits parent outer f child
      { chunks := if f.current.isEmpty then f.chunks else f.chunks ++ [f.current ++ f.comments]
        current := preorder child, ignoring }
  /-- It is divided, and the first of its chunks goes with it. -/
  | absorbs {ignoring : Bool} {first : BlockChunk} {rest : List BlockChunk} :
    verdict limits outer.isNone f.ignoring child = .take →
    divide limits (some parent.tokens) child = first :: rest →
    around parent outer + child.info.tokens + chunkTokens first < limits.maxSize →
    Step limits parent outer f child
      { chunks := f.close.chunks ++ (f.comments ++ child :: first) :: rest, ignoring }
  /-- It is divided, and stands alone in front of its chunks. -/
  | parts {ignoring : Bool} {first : BlockChunk} {rest : List BlockChunk} :
    verdict limits outer.isNone f.ignoring child = .take →
    divide limits (some parent.tokens) child = first :: rest →
    limits.maxSize ≤ around parent outer + child.info.tokens + chunkTokens first →
    Step limits parent outer f child
      { chunks := f.close.chunks ++ (f.comments ++ [child]) :: first :: rest, ignoring }

/-- Only a comment waits, on the first level, and only where comments go with what follows them. -/
theorem of_verdict_wait {limits : ChunkLimits} {top ignoring : Bool} {child : Block}
    (h : verdict limits top ignoring child = .wait) :
    child.info.kind = .comment ∧ limits.comments = .associate ∧ top = true := by
  unfold verdict at h
  split at h
  · rename_i hkind
    split at h
    · cases h
    · split at h
      · cases h
      · split at h
        · rename_i hwait
          simp only [Bool.and_eq_true, decide_eq_true_eq] at hwait
          exact ⟨hkind, hwait⟩
        · cases h
  · split at h <;> cases h

theorem close_current (f : Filling) : f.close.current = [] := by
  unfold close
  split
  · rename_i hempty
    exact List.isEmpty_iff.1 hempty
  · rfl

@[simp] theorem close_comments (f : Filling) : f.close.comments = f.comments := by
  unfold close
  split <;> rfl

theorem close_chunks (f : Filling) :
    f.close.chunks = if f.current.isEmpty then f.chunks else f.chunks ++ [f.current] := by
  unfold close
  split <;> rfl

theorem addDivided_cons (f : Filling) (fits : BlockChunk → Bool) (child : Block)
    (first : BlockChunk) (rest : List BlockChunk) :
    f.addDivided fits child (first :: rest) =
      if fits first then
        { chunks := f.close.chunks ++ (f.comments ++ child :: first) :: rest
          ignoring := f.ignoring }
      else
        { chunks := f.close.chunks ++ (f.comments ++ [child]) :: first :: rest
          ignoring := f.ignoring } := by
  unfold addDivided
  simp [close_current]

theorem addWhole_eq (f : Filling) (fits : Bool) (child : Block) :
    f.addWhole fits child =
      if fits then
        { chunks := f.chunks, current := f.current ++ f.comments ++ preorder child
          ignoring := f.ignoring }
      else
        { chunks := if f.current.isEmpty then f.chunks else f.chunks ++ [f.current ++ f.comments]
          current := preorder child, ignoring := f.ignoring } := by
  rw [preorder_eq]
  unfold addWhole
  cases fits with
  | true => simp
  | false =>
    cases hcurrent : f.current with
    | nil => simp
    | cons first others => simp

/-- **One child.** -/
theorem next_step (limits : ChunkLimits) (parent : BlockInfo) (outer : Option Int) (f : Filling)
    (child : Block) : Step limits parent outer f child (f.next limits parent outer child) := by
  unfold next accept
  cases hverdict : verdict limits outer.isNone f.ignoring child with
  | skip => exact .passes hverdict
  | skipIgnoring => exact .ignores hverdict
  | wait => exact .waits hverdict
  | take =>
    obtain ⟨ignoring, hreset⟩ : ∃ ignoring,
        (if child.info.kind = .comment then f else { f with ignoring := false })
          = { f with ignoring } := by
      split
      · exact ⟨f.ignoring, rfl⟩
      · exact ⟨false, rfl⟩
    simp only [hreset]
    split
    · -- the child is divided, and has a chunk at least
      obtain ⟨first, rest, hparts⟩ := List.exists_cons_of_ne_nil
        (divide_ne_nil limits (some parent.tokens) child)
      have hclose : ({ f with ignoring } : Filling).close.chunks = f.close.chunks := by
        rw [close_chunks, close_chunks]
      rw [hparts, addDivided_cons, hclose]
      split
      · rename_i hfits
        exact .absorbs hverdict hparts (of_decide_eq_true hfits)
      · rename_i hfits
        rw [decide_eq_true_eq] at hfits
        exact .parts hverdict hparts (Int.not_lt.1 hfits)
    · rename_i hwhole
      have hsize : around parent outer + child.totalTokens ≤ limits.maxSize := by
        unfold around
        simp only [Bool.or_eq_true, not_or, decide_eq_true_eq] at hwhole
        exact Int.not_lt.1 hwhole.2
      rw [addWhole_eq]
      split
      · rename_i hfits
        refine .joins hverdict ?_
        simp only [Bool.or_eq_true, Bool.and_eq_true, decide_eq_true_eq] at hfits
        exact hfits.imp_left And.right
      · exact .opens hverdict hsize

end Filling

/-- The chunks of a block before small ones are joined. -/
def unjoined (limits : ChunkLimits) (outer : Option Int) (b : Block) : List BlockChunk :=
  (fill limits b.info outer {} b.children).finish limits

theorem divide_eq_joined (limits : ChunkLimits) (outer : Option Int) (b : Block) :
    divide limits outer b
      = mergeRounds (fun b => b.info.tokens) limits (unjoined limits outer b) := by
  cases b
  rw [divide]
  rfl

/-- **A level.**  What holds at its start and is kept by each child holds at its end; `before` are the
children so far. -/
theorem fill_rule {limits : ChunkLimits} {parent : BlockInfo} {outer : Option Int}
    {P : List Block → Filling → Prop} {children : List Block} (start : P [] {})
    (step : ∀ before child, before ++ [child] <+: children → ∀ f g, P before f →
      Filling.Step limits parent outer f child g → P (before ++ [child]) g) :
    P children (fill limits parent outer {} children) := by
  induction children using List.reverseRecOn with
  | nil =>
    rw [fill]
    exact start
  | append_singleton before child ih =>
    rw [fill_append, fill_cons, fill]
    refine step before child (List.prefix_refl _) _ _ ?_ (Filling.next_step limits parent outer _ child)
    exact ih fun before' child' hpre =>
      step before' child' (hpre.trans (List.prefix_append _ _))

end CodeAtlas.Chunk

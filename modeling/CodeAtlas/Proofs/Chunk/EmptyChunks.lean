import CodeAtlas.Chunk.Stored
import CodeAtlas.Proofs.Chunk.Sizes
import CodeAtlas.Proofs.Chunk.Stranding
import CodeAtlas.Proofs.Graphs

/-!
# Where empty chunks come from

At the end of a level, what is left over becomes a chunk if there is no other, and it is empty if all
children were left out.  For a module this is the answer: one empty chunk.  For a block that has been
divided it is a chunk of the level above, right behind the block, unless it goes with the block.  There
it disappears when small chunks are joined, but not if it is stranded between chunks above the hard
limit.  Such a block is itself above the hard limit, with the comments in front of it.

An empty chunk has no first and no last block, so the node made from it says nothing about its lines
and spans.

Main results:
  * `Chunk.nil_mem_divide`: a block has an empty chunk if and only if one is stranded before joining;
  * `Chunk.divide_nil_or`: where no block without children is above the hard limit;
  * `StoredChunk.make_isPlaced`: which nodes have lines and spans;
  * `Chunk.nil_mem_chunks_exactly`: when a module has an empty chunk.
-/

namespace CodeAtlas.Chunk

open Block (preorder preorderAll descendants preorder_eq)

/-! ## §1. Rows of chunks. -/

/-- A row that begins with a chunk that is not empty, and has one with a property in front of each
empty one. -/
structure Opened (Q : BlockChunk → Prop) (chunks : List BlockChunk) : Prop where
  guarded : Guarded Q chunks
  first : chunks.head? ≠ some []

variable {Q : BlockChunk → Prop} {limits : ChunkLimits}

theorem Opened.around {front back : List BlockChunk} {chunk : BlockChunk} (h : Opened Q front)
    (hchunk : chunk ≠ []) (hback : Guarded Q (chunk :: back)) : Opened Q (front ++ chunk :: back) := by
  refine ⟨guarded_around h.guarded hchunk hback, ?_⟩
  cases front with
  | nil => simpa using hchunk
  | cons first others => exact h.first

theorem guarded_single (chunk : BlockChunk) : Guarded Q [chunk] :=
  .singleton chunk

theorem guarded_of_nil_notMem {chunks : List BlockChunk} (h : [] ∉ chunks) : Guarded Q chunks := by
  induction chunks with
  | nil => exact .nil
  | cons chunk rest ih =>
    refine List.isChain_cons.2 ⟨?_, ih fun hnil => h (List.mem_cons_of_mem _ hnil)⟩
    rintro next hnext rfl
    exact absurd (List.mem_cons_of_mem _ (List.mem_of_mem_head? hnext)) h

namespace Filling

variable {parent : BlockInfo} {outer : Option Int} {f g : Filling} {child : Block}

theorem close_opened (h : Opened Q f.chunks) : Opened Q f.close.chunks := by
  rw [close_chunks]
  split
  · exact h
  · rename_i hcurrent
    exact h.around (by simpa using hcurrent) (guarded_single _)

/-- **One child.**  The row only gets empty chunks from inside a child that was divided. -/
theorem step_opened (h : Opened Q f.chunks)
    (hparts : ∀ first rest, divide limits (some parent.tokens) child = first :: rest →
      Guarded Q (first :: rest) ∧ (first = [] → Q (f.comments ++ [child])) ∧
        (rest.head? = some [] → Q (f.comments ++ child :: first)))
    (hstep : Step limits parent outer f child g) : Opened Q g.chunks := by
  cases hstep with
  | passes _ => exact h
  | ignores _ => exact h
  | waits _ => exact h
  | joins _ _ => exact h
  | opens _ _ =>
    dsimp only
    split
    · exact h
    · rename_i hcurrent
      refine h.around ?_ (guarded_single _)
      rw [List.isEmpty_iff] at hcurrent
      simp [hcurrent]
  | @absorbs _ first rest _ hdivide _ =>
    obtain ⟨hrow, -, hnext⟩ := hparts first rest hdivide
    refine (close_opened h).around (by simp) (List.isChain_cons.2 ⟨?_, (List.isChain_cons.1 hrow).2⟩)
    rintro next hhead rfl
    exact hnext hhead
  | @parts _ first rest _ hdivide _ =>
    obtain ⟨hrow, hfirst, -⟩ := hparts first rest hdivide
    refine (close_opened h).around (by simp) (List.isChain_cons.2 ⟨?_, hrow⟩)
    rintro next hhead rfl
    exact hfirst (Option.some.inj hhead)

/-- At the end of a level, what is left over is a chunk of its own if it is not small, or if there is
no other chunk. -/
theorem finish_opened (hmin : 0 < limits.minSize) (h : Opened Q f.chunks) :
    Opened Q (f.finish limits) ∨ f.finish limits = [[]] := by
  unfold finish
  cases hlast : f.chunks.getLast? with
  | none =>
    cases hcurrent : f.current with
    | nil => exact Or.inr rfl
    | cons b others => exact Or.inl ⟨guarded_single _, by simp⟩
  | some last =>
    left
    dsimp only
    split
    · obtain ⟨front, hfront⟩ := List.getLast?_eq_some_iff.1 hlast
      obtain ⟨hguarded, hfirst⟩ := h
      rw [hfront] at hguarded hfirst ⊢
      rw [List.dropLast_concat]
      obtain ⟨hbefore, -, hborder⟩ := List.isChain_append.1 hguarded
      -- the last chunk gets longer, so it is empty only if it was so before
      constructor
      · refine List.isChain_append.2 ⟨hbefore, guarded_single _, ?_⟩
        intro a ha b hb hempty
        cases hb
        exact hborder a ha last rfl (List.append_eq_nil_iff.1 hempty).1
      · cases front with
        | nil =>
          intro hempty
          exact hfirst (by simpa using (List.append_eq_nil_iff.1 (Option.some.inj hempty)).1)
        | cons first others => exact hfirst
    · rename_i hlarge
      refine h.around ?_ (guarded_single _)
      intro hempty
      rw [hempty] at hlarge
      exact hlarge hmin

end Filling

/-! ## §2. Which blocks have an empty chunk. -/

/-- Before joining, no two neighbours are empty. -/
theorem unjoined_spaced (hmin : 0 < limits.minSize) (b : Block) :
    ∀ outer, Spaced (unjoined limits outer b) := by
  induction b using Block.tree_induction with
  | node b ih =>
    intro outer
    have hfill : Opened (· ≠ []) (fill limits b.info outer {} b.children).chunks := by
      apply fill_rule (P := fun _ f => Opened (· ≠ []) f.chunks)
      · exact ⟨.nil, by simp⟩
      · intro before child hpre f g hopened hstep
        refine Filling.step_opened hopened ?_ hstep
        intro first rest hdivide
        have hspaced : Spaced (divide limits (some b.info.tokens) child) := by
          rw [divide_eq_joined]
          exact spaced_joins (ih child (hpre.subset (by simp)) _) (mergeRounds_joins _ limits _)
        -- what stands in front of the chunks of a child holds the child itself
        exact ⟨hdivide ▸ hspaced, by simp, by simp⟩
    obtain hopened | hempty := Filling.finish_opened hmin hfill
    · exact hopened.guarded
    · rw [unjoined, hempty]
      exact .singleton []

theorem unjoined_nonneg {b : Block} (htokens : ∀ d ∈ b.descendants, 0 ≤ d.info.tokens)
    (outer : Option Int) : ∀ chunk ∈ unjoined limits outer b, 0 ≤ chunkTokens chunk := by
  intro chunk hchunk
  apply tally_nonneg
  intro d hd
  apply htokens d
  apply (divide_sublist limits outer b).subset
  rw [divide_eq_joined, mergeRounds_flatten]
  exact List.mem_flatten.2 ⟨chunk, hchunk, hd⟩

variable (limits) in
/-- There is an empty chunk between chunks above the hard limit, before small ones are joined. -/
def Strands (outer : Option Int) (b : Block) : Prop :=
  Stranded (fun d : Block => d.info.tokens) limits (unjoined limits outer b)

variable (limits) in
/-- There is a row of empty chunks between chunks above the hard limit, before small ones are
joined. -/
def StrandsRow (outer : Option Int) (b : Block) : Prop :=
  StrandedRow (fun d : Block => d.info.tokens) limits (unjoined limits outer b)

theorem nil_mem_divide (hmin : 0 < limits.minSize) {b : Block}
    (htokens : ∀ d ∈ b.descendants, 0 ≤ d.info.tokens) (outer : Option Int) :
    [] ∈ divide limits outer b ↔ Strands limits outer b := by
  rw [divide_eq_joined]
  exact nil_mem_mergeRounds hmin (unjoined_spaced hmin b outer) (unjoined_nonneg htokens outer)

/-- A chunk by itself stays as it is. -/
theorem mergeRounds_single {α : Type} (tokens : α → Int) (chunk : List α) :
    mergeRounds tokens limits [chunk] = [chunk] := by
  obtain hsame | ⟨joined, hjoin, -⟩ := (mergeRounds_joins tokens limits [chunk]).cases_head
  · exact hsame.symm
  · have hlength := hjoin.length_eq
    have hnone : joined.length = 0 := by simpa using hlength
    exact absurd (List.eq_nil_of_length_eq_zero hnone) hjoin.ne_nil

/-! ## §3. Blocks that leave nothing behind. -/

namespace Filling

variable {parent : BlockInfo} {outer : Option Int} {f g : Filling} {child : Block}

/-- What is taken stays taken. -/
theorem step_taken (hstep : Step limits parent outer f child g) (hnone : g.taken = []) :
    f.taken = [] ∧ verdict limits outer.isNone f.ignoring child ≠ .take := by
  unfold taken at hnone ⊢
  cases hstep with
  | passes hverdict => exact ⟨hnone, by simp [hverdict]⟩
  | ignores hverdict => exact ⟨hnone, by simp [hverdict]⟩
  | waits hverdict => exact ⟨hnone, by simp [hverdict]⟩
  | joins _ _ => simp [preorder_eq] at hnone
  | opens _ _ => simp [preorder_eq] at hnone
  | absorbs _ _ _ => simp at hnone
  | parts _ _ _ => simp at hnone

end Filling

/-- Where a child fills a chunk, not all chunks are empty. -/
theorem divide_ne_of_fills {b : Block} (h : ∃ c ∈ b.children, fills limits c = true)
    (outer : Option Int) : divide limits outer b ≠ [[]] := by
  have htaken : (∃ c ∈ b.children, fills limits c = true) →
      (fill limits b.info outer {} b.children).taken ≠ [] := by
    apply fill_rule (P := fun before f => (∃ c ∈ before, fills limits c = true) → f.taken ≠ [])
    · simp
    · rintro before child - f g hbefore hstep ⟨c, hc, hfills⟩ hnone
      obtain ⟨hnone, hverdict⟩ := Filling.step_taken hstep hnone
      obtain hc | hc := List.mem_append.1 hc
      · exact hbefore ⟨c, hc, hfills⟩ hnone
      · rw [List.mem_singleton.1 hc] at hfills
        exact hverdict (Filling.verdict_of_fills hfills _ _)
  intro hempty
  apply htaken h
  have hflatten := congrArg List.flatten hempty
  rw [divide_eq_joined, mergeRounds_flatten, unjoined, Filling.finish_flatten] at hflatten
  exact hflatten

/-- The tokens of the children that may wait for the next block. -/
def waiting (limits : ChunkLimits) (outer : Option Int) (children : List Block) : Int :=
  if limits.comments = .associate ∧ outer = none then
    chunkTokens (children.filter fun c => c.info.kind = .comment)
  else 0

theorem waiting_append (outer : Option Int) (xs ys : List Block) :
    waiting limits outer (xs ++ ys) = waiting limits outer xs + waiting limits outer ys := by
  unfold waiting
  split
  · rw [List.filter_append, chunkTokens_append]
  · rfl

theorem waiting_nonneg (outer : Option Int) {children : List Block}
    (htokens : ∀ c ∈ children, 0 ≤ c.info.tokens) : 0 ≤ waiting limits outer children := by
  unfold waiting
  split
  · exact tally_nonneg fun c hc => htokens c (List.mem_of_mem_filter hc)
  · exact Int.le_refl 0

theorem Filling.step_waiting {parent : BlockInfo} {outer : Option Int} {f g : Filling}
    {before : List Block} {child : Block}
    (h : chunkTokens f.comments ≤ waiting limits outer before)
    (htokens : ∀ c ∈ before ++ [child], 0 ≤ c.info.tokens)
    (hstep : Step limits parent outer f child g) :
    chunkTokens g.comments ≤ waiting limits outer (before ++ [child]) := by
  have hchild : 0 ≤ waiting limits outer [child] :=
    waiting_nonneg outer fun c hc => htokens c (List.mem_append_right _ hc)
  have hall : 0 ≤ waiting limits outer (before ++ [child]) := waiting_nonneg outer htokens
  rw [waiting_append] at hall ⊢
  cases hstep with
  | passes _ => omega
  | ignores _ =>
    show chunkTokens f.comments ≤ _
    omega
  | waits hverdict =>
    obtain ⟨hkind, hassociate, htop⟩ := of_verdict_wait hverdict
    have hwaits : waiting limits outer [child] = chunkTokens [child] := by
      simp [waiting, hassociate, Option.isNone_iff_eq_none.1 htop, hkind]
    show chunkTokens (f.comments ++ [child]) ≤ _
    rw [chunkTokens_append, hwaits]
    omega
  | joins _ _ => exact hall
  | opens _ _ => exact hall
  | absorbs _ _ _ => exact hall
  | parts _ _ _ => exact hall

/-- A row in which only chunks within the hard limit stand in front of empty ones. -/
theorem not_stranded_of_opened {chunks : List BlockChunk}
    (h : Opened (fun chunk => chunkTokens chunk ≤ limits.hardLimit) chunks) :
    ¬ Stranded (fun d : Block => d.info.tokens) limits chunks := by
  rintro ⟨front, back, rfl, hshut⟩
  obtain rfl | ⟨shorter, last, rfl⟩ := front.eq_nil_or_concat
  · exact h.first rfl
  · obtain ⟨-, -, hborder⟩ := List.isChain_append.1 h.guarded
    have hwithin : chunkTokens last ≤ limits.hardLimit := hborder last (by simp) [] rfl rfl
    have habove : limits.hardLimit < chunkTokens last := hshut.before last (by simp)
    omega

variable (limits) in
/-- Blocks below which nothing fills a chunk are within the hard limit, with so many tokens in front
of them. -/
def HaveRoom (tokens : Int) (blocks : List Block) : Prop :=
  ∀ d ∈ blocks, (∀ c ∈ d.children, fills limits c = false) → tokens + d.info.tokens ≤ limits.hardLimit

/-- The chunks of a divided child, if none of them is empty or it has one empty chunk. -/
theorem guarded_parts {parts : List BlockChunk} {comments : BlockChunk} {child : Block}
    (hparts : [] ∉ parts ∨ parts = [[]]) (hchild : parts = [[]] → Q (comments ++ [child]))
    (first : BlockChunk) (rest : List BlockChunk) (h : parts = first :: rest) :
    Guarded Q (first :: rest) ∧ (first = [] → Q (comments ++ [child])) ∧
      (rest.head? = some [] → Q (comments ++ child :: first)) := by
  obtain hnone | hempty := hparts
  · rw [h] at hnone
    refine ⟨guarded_of_nil_notMem hnone, ?_, ?_⟩
    · rintro rfl
      exact absurd List.mem_cons_self hnone
    · intro hhead
      exact absurd (List.mem_cons_of_mem _ (List.mem_of_mem_head? hhead)) hnone
  · obtain ⟨rfl, rfl⟩ := List.cons.inj (h.symm.trans hempty)
    exact ⟨guarded_single _, fun _ => hchild hempty, by simp⟩

/-- **No room for an empty chunk.**  Where all blocks without children to fill chunks are within the
hard limit, a block has no empty chunk, or no other. -/
theorem divide_nil_or (hmin : 0 < limits.minSize) {most : Int} (hmost : 0 ≤ most) (b : Block)
    (htokens : ∀ d ∈ b.descendants, 0 ≤ d.info.tokens) (hroom : HaveRoom limits most b.descendants) :
    ∀ outer, waiting limits outer b.children ≤ most →
      [] ∉ divide limits outer b ∨ divide limits outer b = [[]] := by
  induction b using Block.tree_induction with
  | node b ih =>
    intro outer hwaiting
    have hbelow : ∀ child ∈ b.children, ∀ d ∈ preorder child, d ∈ b.descendants :=
      fun child hchild d hd => Block.mem_descendants_of_child hchild hd
    have hchildren : ∀ child ∈ b.children, 0 ≤ child.info.tokens :=
      fun child hchild => htokens child (hbelow child hchild child child.self_mem_preorder)
    have hparts : ∀ child ∈ b.children, [] ∉ divide limits (some b.info.tokens) child ∨
        divide limits (some b.info.tokens) child = [[]] := by
      intro child hchild
      have hinside : ∀ d ∈ child.descendants, d ∈ b.descendants := fun d hd =>
        hbelow child hchild d (by rw [preorder_eq]; exact List.mem_cons_of_mem _ hd)
      refine ih child hchild (fun d hd => htokens d (hinside d hd))
        (fun d hd => hroom d (hinside d hd)) _ ?_
      simpa [waiting] using hmost
    have hfill : Opened (fun chunk => chunkTokens chunk ≤ limits.hardLimit)
          (fill limits b.info outer {} b.children).chunks ∧
        chunkTokens (fill limits b.info outer {} b.children).comments
          ≤ waiting limits outer b.children := by
      apply fill_rule (P := fun before f =>
        Opened (fun chunk => chunkTokens chunk ≤ limits.hardLimit) f.chunks ∧
          chunkTokens f.comments ≤ waiting limits outer before)
      · exact ⟨⟨.nil, by simp⟩, waiting_nonneg outer (by simp)⟩
      · rintro before child hpre f g ⟨hopened, hcomments⟩ hstep
        have hchild : child ∈ b.children := hpre.subset (by simp)
        have hlimit : divide limits (some b.info.tokens) child = [[]] →
            chunkTokens (f.comments ++ [child]) ≤ limits.hardLimit := by
          -- nothing below the child fills a chunk, so the child and what waits are within the limit
          intro hempty
          have hnothing : ∀ c ∈ child.children, fills limits c = false := by
            intro c hc
            by_contra hfills
            exact divide_ne_of_fills ⟨c, hc, by simpa using hfills⟩ _ hempty
          have hwithin := hroom child (hbelow child hchild child child.self_mem_preorder) hnothing
          obtain ⟨others, hothers⟩ := hpre
          have hlater : 0 ≤ waiting limits outer ([child] ++ others) := by
            refine waiting_nonneg outer fun c hc => hchildren c ?_
            rw [← hothers, List.append_assoc]
            exact List.mem_append_right _ hc
          rw [← hothers, List.append_assoc, waiting_append] at hwaiting
          have hsingle : chunkTokens [child] = child.info.tokens := Int.add_zero _
          rw [chunkTokens_append, hsingle]
          omega
        exact ⟨Filling.step_opened hopened (guarded_parts (hparts child hchild) hlimit) hstep,
          Filling.step_waiting hcomments (fun c hc => hchildren c (hpre.subset hc)) hstep⟩
    obtain hopened | hempty := Filling.finish_opened hmin hfill.1
    · left
      rw [nil_mem_divide hmin htokens]
      exact not_stranded_of_opened hopened
    · right
      rw [divide_eq_joined, unjoined, hempty]
      exact mergeRounds_single _ _

/-- What is taken on the first level fills a chunk, or is a comment that is kept. -/
theorem of_verdict_take {ignoring : Bool} {child : Block}
    (h : verdict limits true ignoring child = .take) :
    fills limits child = true ∨ child.info.kind = .comment ∧ limits.comments = .keep := by
  unfold verdict at h
  unfold fills
  by_cases hkind : child.info.kind = .comment
  · right
    rw [if_pos hkind] at h
    split at h
    · cases h
    · split at h
      · cases h
      · rename_i hleft _
        cases hrule : limits.comments with
        | keep => exact ⟨hkind, rfl⟩
        | associate => simp [hrule] at h
        | leaveOut => exact absurd hrule hleft
  · left
    rw [if_neg hkind] at h
    split at h
    · cases h
    · rename_i hsize
      simp only [Bool.and_eq_true, decide_eq_true_eq]
      exact ⟨hkind, by omega⟩

/-- Where nothing is taken, the only chunk is empty. -/
theorem divide_of_nothing {module : Block}
    (h : ∀ child ∈ module.children, fills limits child = false ∧
      (child.info.kind = .comment → limits.comments ≠ .keep)) : divide limits none module = [[]] := by
  have hfill : (fill limits module.info none {} module.children).chunks = [] ∧
      (fill limits module.info none {} module.children).current = [] := by
    apply fill_rule (P := fun _ f => f.chunks = [] ∧ f.current = [])
    · exact ⟨rfl, rfl⟩
    · intro before child hpre f g hnothing hstep
      have hleft : verdict limits (none : Option Int).isNone f.ignoring child ≠ .take := by
        intro htake
        obtain ⟨hfills, hcomment⟩ := h child (hpre.subset (by simp))
        obtain hyes | ⟨hkind, hkeep⟩ := of_verdict_take htake
        · rw [hfills] at hyes
          cases hyes
        · exact hcomment hkind hkeep
      cases hstep with
      | passes _ => exact hnothing
      | ignores _ => exact hnothing
      | waits _ => exact hnothing
      | joins htake _ => exact absurd htake hleft
      | opens htake _ => exact absurd htake hleft
      | absorbs htake _ _ => exact absurd htake hleft
      | parts htake _ _ => exact absurd htake hleft
  rw [divide_eq_joined, unjoined, Filling.finish, hfill.1, hfill.2]
  exact mergeRounds_single _ _

/-! ## §4. Modules and their nodes. -/

/-- A module that is divided into chunks: it has tokens, no mistakes, was not generated, and is not so
small that it is one chunk. -/
structure IsSplit (limits : ChunkLimits) (module : Block) : Prop where
  tokens : module.totalTokens ≠ 0
  correct : module.errorBlocks = []
  written : isGenerated limits module = false
  large : limits.minSize ≤ module.totalTokens

theorem chunks_of_isSplit {module : Block} (h : IsSplit limits module) :
    chunks limits module = divide limits none module := by
  unfold chunks
  simp [h.tokens, h.correct, h.written, Int.not_lt.2 h.large]

/-- Any other module has no chunk, or all its blocks are one. -/
theorem nil_notMem_of_not_isSplit {module : Block} (h : ¬ IsSplit limits module) :
    [] ∉ chunks limits module := by
  unfold chunks
  dsimp only
  split
  · simp
  · rename_i hnone
    simp only [Bool.or_eq_true, decide_eq_true_eq, Bool.not_eq_true', not_or, List.isEmpty_eq_false_iff,
      not_not, Bool.not_eq_true] at hnone
    split
    · simp [preorder_eq]
    · rename_i hlarge
      exact absurd ⟨hnone.1.1, hnone.1.2, hnone.2, by omega⟩ h

end CodeAtlas.Chunk

namespace CodeAtlas.StoredChunk

/-- What a node is to say about its place in the file. -/
def placeKeys : List String :=
  ["start_line", "end_line", "span_ids"]

/-- Does a node say all about its place in the file? -/
def IsPlaced (node : StoredChunk) : Prop :=
  ∀ key ∈ placeKeys, (Assoc.get? key node.metadata).isSome = true

/-- The node of a chunk says where it is in the file, unless the chunk is empty. -/
theorem make_isPlaced {document : Document} (content : String) (chunk : Chunk.BlockChunk)
    (tokenizer : Tokenizer)
    (hdocument : ∀ key ∈ placeKeys, Assoc.get? key document.metadata = none) :
    (make document content chunk tokenizer).IsPlaced ↔ chunk ≠ [] := by
  cases hlast : chunk.getLast? with
  | none =>
    have hempty := List.getLast?_eq_none_iff.1 hlast
    have hline := hdocument "start_line" (by simp [placeKeys])
    have hmissing : ¬ (make document content [] tokenizer).IsPlaced := by
      intro hplaced
      have hsome := hplaced "start_line" (by simp [placeKeys])
      simp [make, chunkMetadata, Assoc.get?_put, hline] at hsome
    simp [hempty, hmissing]
  | some last =>
    obtain ⟨first, others, rfl⟩ : ∃ first others, chunk = first :: others := by
      cases chunk with
      | nil => cases hlast
      | cons first others => exact ⟨first, others, rfl⟩
    have hplaced : (make document content (first :: others) tokenizer).IsPlaced := by
      intro key hkey
      simp only [placeKeys, List.mem_cons, List.not_mem_nil, or_false] at hkey
      obtain rfl | rfl | rfl := hkey <;>
        simp [make, chunkMetadata, hlast, Assoc.get?_put]
    simp [hplaced]

end CodeAtlas.StoredChunk

namespace CodeAtlas.Chunk

open StoredChunk (ofModule IsPlaced placeKeys)

variable {limits : ChunkLimits}

/-- **When a module has an empty chunk.**  It is a module that is split and has an empty chunk
stranded before joining, and then there is a node without its place in the file.  So it is if nothing
in the module fills a chunk, and not so if something does and all blocks without children to fill
chunks are within the hard limit.

With a least size of zero or less, each empty chunk is left unless there are too many chunks.  If there
are, those that were stranded are left, alone or in a row; and no others, if no two neighbours were
empty or there still are too many chunks. -/
theorem nil_mem_chunks_exactly (limits : ChunkLimits) (module : Block)
    (htokens : ∀ d ∈ module.descendants, 0 ≤ d.info.tokens) (document : Document)
    (hdocument : ∀ key ∈ placeKeys, Assoc.get? key document.metadata = none)
    (tokenizer : Tokenizer) :
    ([] ∈ chunks limits module ↔
      ∃ node ∈ ofModule limits document module tokenizer, ¬ node.IsPlaced) ∧
    (0 < limits.minSize →
      ([] ∈ chunks limits module ↔ IsSplit limits module ∧ Strands limits none module)) ∧
    (limits.minSize ≤ 0 → (unjoined limits none module).length ≤ limits.maxChunks →
      ([] ∈ chunks limits module ↔ IsSplit limits module ∧ [] ∈ unjoined limits none module)) ∧
    (limits.minSize ≤ 0 → limits.maxChunks < (unjoined limits none module).length →
      (IsSplit limits module → StrandsRow limits none module → [] ∈ chunks limits module) ∧
      (Spaced (unjoined limits none module) ∨ limits.maxChunks < (chunks limits module).length →
        ([] ∈ chunks limits module ↔ IsSplit limits module ∧ StrandsRow limits none module))) ∧
    (IsSplit limits module →
      (∀ child ∈ module.children, fills limits child = false ∧
        (child.info.kind = .comment → limits.comments ≠ .keep)) → chunks limits module = [[]]) ∧
    (0 < limits.minSize → (∃ child ∈ module.children, fills limits child = true) →
      HaveRoom limits (waiting limits none module.children) module.descendants →
      [] ∉ chunks limits module) := by
  have hnonneg : ∀ chunk ∈ unjoined limits none module, 0 ≤ chunkTokens chunk :=
    unjoined_nonneg htokens none
  have hsplits : [] ∈ chunks limits module ↔ IsSplit limits module ∧ [] ∈ divide limits none module := by
    by_cases hsplit : IsSplit limits module
    · rw [chunks_of_isSplit hsplit]
      exact (and_iff_right hsplit).symm
    · exact iff_of_false (nil_notMem_of_not_isSplit hsplit) fun h => hsplit h.1
  refine ⟨?_, ?_, ?_, ?_, ?_, ?_⟩
  · unfold ofModule
    simp only [List.mem_map, exists_exists_and_eq_and, StoredChunk.make_isPlaced _ _ _ hdocument, ne_eq,
      not_not, exists_eq_right]
  · intro hmin
    rw [hsplits, nil_mem_divide hmin htokens]
  · intro hmin hfew
    rw [hsplits, divide_eq_joined, mergeRounds_of_few hmin hfew hnonneg]
  · intro hmin hmany
    refine ⟨fun hsplit hstranded => ?_, fun hcase => ?_⟩
    · rw [chunks_of_isSplit hsplit, divide_eq_joined]
      exact hstranded.nil_mem hnonneg
    · rw [hsplits]
      refine and_congr_right fun hsplit => ?_
      rw [chunks_of_isSplit hsplit, divide_eq_joined] at hcase
      rw [divide_eq_joined]
      exact nil_mem_mergeRounds_of_many hmin hmany hcase hnonneg
  · intro hsplit hnothing
    rw [chunks_of_isSplit hsplit]
    exact divide_of_nothing hnothing
  · intro hmin hfills hroom
    rw [hsplits]
    rintro ⟨-, hnil⟩
    have hmost : 0 ≤ waiting limits none module.children :=
      waiting_nonneg none fun c hc =>
        htokens c (Block.mem_descendants_of_child hc c.self_mem_preorder)
    obtain hnone | hempty := divide_nil_or hmin hmost module htokens hroom none (Int.le_refl _)
    · exact hnone hnil
    · exact divide_ne_of_fills hfills none hempty

/-- Two long functions without anything below them. -/
def longFunctions : Block :=
  ⟨{ kind := .moduleDef, content := "", id := 0, path := [] },
    [⟨{ kind := .functionDef, content := "def area(side): return side ** 2", tokens := 6, id := 1
        path := ["area"] }, []⟩,
     ⟨{ kind := .functionDef, content := "def rim(side): return side * 4", tokens := 6, id := 2
        path := ["rim"] }, []⟩]⟩

theorem nil_mem_of_ids {row : List BlockChunk} (h : [] ∈ row.map ids) : [] ∈ row := by
  obtain ⟨chunk, hchunk, hempty⟩ := List.mem_map.1 h
  rwa [List.map_eq_nil_iff.1 hempty] at hchunk

/-- Where the functions are just small enough to be taken, an empty chunk is stranded behind each of
them, also if an empty chunk is too small only since there are too many chunks; where they are too
large, there is one empty chunk. -/
theorem nil_mem_chunks_exactly_longFunctions :
    let limits : ChunkLimits := { chunkSize := 5, minSize := 1, maxSize := 6, hardLimit := 5 }
    let crowded : ChunkLimits := { limits with minSize := 0, maxChunks := 3 }
    let document : Document := { id := "shapes.py", metadata := [("file_path", .str "shapes.py")] }
    (chunks limits longFunctions).map ids = [[1], [], [2], []] ∧
      (IsSplit limits longFunctions ∧ Strands limits none longFunctions) ∧
      (∃ node ∈ ofModule limits document longFunctions .words, ¬ node.IsPlaced) ∧
      (unjoined crowded none longFunctions).map ids = [[1], [], [2], [], []] ∧
      (chunks crowded longFunctions).map ids = [[1], [], [2], []] ∧
      StrandsRow crowded none longFunctions ∧
      chunks { limits with maxSize := 5 } longFunctions = [[]] := by
  intro limits crowded document
  have htokens : ∀ d ∈ longFunctions.descendants, 0 ≤ d.info.tokens := by decide
  have hdocument : ∀ key ∈ placeKeys, Assoc.get? key document.metadata = none := by decide
  have hchunks : (chunks limits longFunctions).map ids = [[1], [], [2], []] := by decide +kernel
  have hcrowded : (unjoined crowded none longFunctions).map ids = [[1], [], [2], [], []] ∧
      (chunks crowded longFunctions).map ids = [[1], [], [2], []] := by decide +kernel
  have hlengths : (unjoined crowded none longFunctions).length = 5 ∧
      (chunks crowded longFunctions).length = 4 := by
    constructor
    · rw [← List.length_map (f := ids), hcrowded.1]
      rfl
    · rw [← List.length_map (f := ids), hcrowded.2]
      rfl
  have hnil : [] ∈ chunks limits longFunctions := nil_mem_of_ids (by simp [hchunks])
  have hleft : [] ∈ chunks crowded longFunctions := nil_mem_of_ids (by simp [hcrowded.2])
  obtain ⟨hnodes, hstranded, -⟩ :=
    nil_mem_chunks_exactly limits longFunctions htokens document hdocument .words
  obtain ⟨-, -, -, hmany, -⟩ :=
    nil_mem_chunks_exactly crowded longFunctions htokens document hdocument .words
  obtain ⟨-, -, -, -, hnothing, -⟩ :=
    nil_mem_chunks_exactly { limits with maxSize := 5 } longFunctions htokens document hdocument .words
  have hrow := (hmany (by decide) (by rw [hlengths.1]; decide)).2
    (Or.inr (by rw [hlengths.2]; decide))
  refine ⟨hchunks, (hstranded (by decide)).1 hnil, hnodes.1 hnil, hcrowded.1, hcrowded.2,
    (hrow.1 hleft).2, hnothing ?_ (by decide)⟩
  exact ⟨by decide, by decide, by decide, by decide⟩

/-- Where neighbours are empty and no more chunks are left than may be, an empty chunk can be left that
is not stranded: here the one in front of the third block, which is within the hard limit. -/
example :
    let limits : ChunkLimits :=
      { chunkSize := 4, minSize := 0, maxSize := 5, hardLimit := 3, maxChunks := 5 }
    let part (id : Nat) (tokens : Int) (children : List Block) : Block :=
      ⟨{ kind := .functionDef, content := "", tokens, id, path := [] }, children⟩
    let module := part 0 0 [part 1 2 [part 2 4 []], part 3 2 [part 4 1 []], part 5 3 []]
    (unjoined limits none module).map chunkTokens = [2, 4, 0, 0, 3, 0, 3, 0] ∧
      (chunks limits module).map ids = [[1], [2], [], [3, 4], [5]] := by decide +kernel

end CodeAtlas.Chunk

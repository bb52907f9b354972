import CodeAtlas.Parse.Refine

/-!
# The document order of blocks

The row of all blocks of a tree is its root followed by the rows of the trees below it.  What a
change of the tree keeps of each block it keeps of the row.

Main results:
  * `Block.tree_induction`: what passes from the children of a block to the block holds of all trees;
  * `Block.preorder_eq`, `Block.preorderAll_append`: the row of a tree, and of trees in a row;
  * `Block.preorder_assignSpans`: spans are given out along the row, block by block;
  * `Refine.map_preorderAll_markAllRepeats`: noting mistakes changes nothing but what is noted.
-/

namespace CodeAtlas

namespace Block

theorem preorder_eq (b : Block) : preorder b = b :: b.descendants := by
  cases b
  rw [preorder, descendants]

theorem self_mem_preorder (b : Block) : b ∈ preorder b := by
  rw [preorder_eq]
  exact List.mem_cons_self

theorem preorderAll_append (xs ys : List Block) :
    preorderAll (xs ++ ys) = preorderAll xs ++ preorderAll ys := by
  induction xs with
  | nil => rfl
  | cons x xs ih => rw [List.cons_append, preorderAll, preorderAll, ih, List.append_assoc]

theorem preorderAll_eq_flatMap (bs : List Block) : preorderAll bs = bs.flatMap preorder := by
  induction bs with
  | nil => rfl
  | cons b bs ih => rw [preorderAll, List.flatMap_cons, ih]

mutual
theorem tree_induction {P : Block → Prop} (node : ∀ b : Block, (∀ c ∈ b.children, P c) → P b) :
    ∀ b : Block, P b
  | ⟨info, children⟩ => node ⟨info, children⟩ (tree_induction_row node children)

theorem tree_induction_row {P : Block → Prop} (node : ∀ b : Block, (∀ c ∈ b.children, P c) → P b) :
    ∀ bs : List Block, ∀ c ∈ bs, P c
  | [] => List.forall_mem_nil P
  | b :: bs => List.forall_mem_cons.2 ⟨tree_induction node b, tree_induction_row node bs⟩
end

theorem mem_preorderAll {d : Block} {bs : List Block} :
    d ∈ preorderAll bs ↔ ∃ c ∈ bs, d ∈ preorder c := by
  induction bs with
  | nil => simp [preorderAll]
  | cons b bs ih => simp only [preorderAll, List.mem_append, ih, List.mem_cons, exists_eq_or_imp]

/-- The blocks of the tree of a child are below the block. -/
theorem mem_descendants_of_child {b c d : Block} (hc : c ∈ b.children) (hd : d ∈ preorder c) :
    d ∈ b.descendants :=
  mem_preorderAll.2 ⟨c, hc, hd⟩

/-- A child is less high than the block around it. -/
theorem height_lt_of_child {b c : Block} (hc : c ∈ b.children) : c.height < b.height := by
  obtain ⟨info, children⟩ := b
  have hrow : ∀ bs : List Block, c ∈ bs → c.height < heightAll bs := by
    intro bs hbs
    induction bs with
    | nil => cases hbs
    | cons b bs ih =>
      rw [heightAll]
      obtain rfl | hbs := List.mem_cons.1 hbs
      · omega
      · have := ih hbs
        omega
  rw [height]
  exact hrow children hc

mutual
/-- A way down passes through blocks of the tree. -/
theorem height_lt_length_preorder : ∀ b : Block, b.height < b.preorder.length
  | ⟨info, children⟩ => by
    have := heightAll_le_length_preorderAll children
    rw [height, preorder, List.length_cons]
    omega

theorem heightAll_le_length_preorderAll : ∀ bs : List Block, heightAll bs ≤ (preorderAll bs).length
  | [] => Nat.le_refl 0
  | b :: bs => by
    have := height_lt_length_preorder b
    have := heightAll_le_length_preorderAll bs
    rw [heightAll, preorderAll, List.length_append]
    omega
end

theorem assignSpansAll_eq (spanOf : Nat → Option Span) (bs : List Block) :
    assignSpansAll spanOf bs = bs.map (assignSpans spanOf) := by
  induction bs with
  | nil => rw [assignSpansAll, List.map_nil]
  | cons b bs ih => rw [assignSpansAll, List.map_cons, ih]

theorem children_assignSpans (spanOf : Nat → Option Span) (b : Block) :
    (b.assignSpans spanOf).children = b.children.map (assignSpans spanOf) := by
  cases b
  rw [assignSpans, assignSpansAll_eq]

theorem info_assignSpans (spanOf : Nat → Option Span) (b : Block) :
    (b.assignSpans spanOf).info = { b.info with span := spanOf b.info.id } := by
  cases b
  rw [assignSpans]

mutual
/-- Spans are given out along the row, block by block. -/
theorem preorder_assignSpans (spanOf : Nat → Option Span) :
    ∀ b : Block, (b.assignSpans spanOf).preorder = b.preorder.map (assignSpans spanOf)
  | ⟨info, children⟩ => by
    rw [assignSpans, preorder, preorder, List.map_cons, preorderAll_assignSpansAll spanOf children,
      assignSpans]

theorem preorderAll_assignSpansAll (spanOf : Nat → Option Span) :
    ∀ bs : List Block, preorderAll (assignSpansAll spanOf bs)
      = (preorderAll bs).map (assignSpans spanOf)
  | [] => by rw [assignSpansAll, preorderAll, List.map_nil]
  | b :: bs => by
    rw [assignSpansAll, preorderAll, preorderAll, List.map_append, preorder_assignSpans spanOf b,
      preorderAll_assignSpansAll spanOf bs]
end

/-- Each block of the row gets the span of its number. -/
theorem infos_assignSpansAll (spanOf : Nat → Option Span) (bs : List Block) :
    (preorderAll (assignSpansAll spanOf bs)).map (·.info)
      = (preorderAll bs).map fun b => { b.info with span := spanOf b.info.id } := by
  rw [preorderAll_assignSpansAll, List.map_map]
  exact List.map_congr_left fun b _ => info_assignSpans spanOf b

end Block

namespace Refine

open Block

variable {β : Type}

/-- What does not look at mistakes stays the same along the row when they are noted. -/
theorem map_preorderAll_markRepeats {f : Block → β}
    (hf : ∀ b errors, f { b with info := { b.info with errors } } = f b)
    (kind : BlockKind) (word : String) :
    ∀ (seen : List (Option String)) (bs : List Block),
      (preorderAll (markRepeats kind word seen bs)).map f = (preorderAll bs).map f
  | _, [] => by rw [markRepeats]
  | seen, b :: bs => by
    rw [markRepeats]
    split
    · rw [preorderAll, preorderAll, List.map_append, List.map_append,
        map_preorderAll_markRepeats hf kind word _ bs]
      congr 1
      split
      · rw [preorder_eq, preorder_eq b, List.map_cons, List.map_cons]
        congr 1
        exact hf b _
      · rfl
    · rw [preorderAll, preorderAll, List.map_append, List.map_append,
        map_preorderAll_markRepeats hf kind word _ bs]

theorem map_blocks_markAllRepeats {f : Block → β}
    (hf : ∀ b errors, f { b with info := { b.info with errors } } = f b)
    (bs : List Block) : (preorderAll (markAllRepeats bs)).map f = (preorderAll bs).map f := by
  unfold markAllRepeats
  rw [map_preorderAll_markRepeats hf, map_preorderAll_markRepeats hf]

theorem map_preorderAll_markAllRepeats {f : BlockInfo → β}
    (hf : ∀ info errors, f { info with errors } = f info) (bs : List Block) :
    (preorderAll (markAllRepeats bs)).map (fun b => f b.info)
      = (preorderAll bs).map fun b => f b.info :=
  map_blocks_markAllRepeats (fun b errors => hf b.info errors) bs

theorem map_markRepeats {f : Block → β}
    (hf : ∀ b errors, f { b with info := { b.info with errors } } = f b)
    (kind : BlockKind) (word : String) :
    ∀ (seen : List (Option String)) (bs : List Block),
      (markRepeats kind word seen bs).map f = bs.map f
  | _, [] => by rw [markRepeats]
  | seen, b :: bs => by
    rw [markRepeats]
    split
    · rw [List.map_cons, List.map_cons, map_markRepeats hf kind word _ bs]
      congr 1
      split
      · exact hf b _
      · rfl
    · rw [List.map_cons, List.map_cons, map_markRepeats hf kind word _ bs]

/-- The same holds of the blocks of the row alone, without those below them. -/
theorem map_markAllRepeats {f : Block → β}
    (hf : ∀ b errors, f { b with info := { b.info with errors } } = f b)
    (bs : List Block) : (markAllRepeats bs).map f = bs.map f := by
  unfold markAllRepeats
  rw [map_markRepeats hf, map_markRepeats hf]

end Refine

end CodeAtlas

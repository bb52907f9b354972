import CodeAtlas.Chunk.Context
import CodeAtlas.Proofs.Block.NameTrees
import CodeAtlas.Proofs.Block.Preorder
import Mathlib.Logic.Basic

/-!
# What the text of a chunk shows

The text of a chunk goes down the tree of blocks and the name tree of the chunk side by side.  A block
is shown if the name tree has a node for it below the node of its parent.  If all blocks on the way down
have names, this node is the one that the path of the block leads to, and there is one if the path is
the beginning of the path of a block of the chunk.  A block without a name has no node, and nothing below
it is shown, though the path of a block below it may lead to a node.

Main results:
  * `Chunk.child?_cases`: which children have a node;
  * `Chunk.contextChildren_shows`: what is shown of a row of children;
  * `Chunk.contextText_exact`: what is shown of a whole module.
-/

namespace CodeAtlas.Block

/-! ## §1. Blocks with the blocks around them. -/

mutual
/-- The blocks of a tree in document order, each with the blocks around it, from the outside in. -/
def lineage (around : List Block) : Block → List (List Block × Block)
  | ⟨info, children⟩ =>
    (around, ⟨info, children⟩) :: lineageAll (around ++ [⟨info, children⟩]) children

/-- The blocks of a row of trees in document order, each with the blocks around it. -/
def lineageAll (around : List Block) : List Block → List (List Block × Block)
  | [] => []
  | b :: bs => lineage around b ++ lineageAll around bs
end

theorem lineage_eq (around : List Block) (b : Block) :
    lineage around b = (around, b) :: lineageAll (around ++ [b]) b.children := by
  cases b
  rw [lineage]

mutual
theorem map_lineage (around : List Block) : ∀ b : Block, (lineage around b).map (·.2) = preorder b
  | ⟨info, children⟩ => by rw [lineage, preorder, List.map_cons, map_lineageAll _ children]

theorem map_lineageAll (around : List Block) :
    ∀ bs : List Block, (lineageAll around bs).map (·.2) = preorderAll bs
  | [] => by rw [lineageAll, preorderAll, List.map_nil]
  | b :: bs => by
    rw [lineageAll, preorderAll, List.map_append, map_lineage around b, map_lineageAll around bs]
end

theorem mem_lineageAll {around : List Block} {bs : List Block} {t : List Block × Block} :
    t ∈ lineageAll around bs ↔ ∃ c ∈ bs, t ∈ lineage around c := by
  induction bs with
  | nil => simp [lineageAll]
  | cons b bs ih => simp only [lineageAll, List.mem_append, ih, List.mem_cons, exists_eq_or_imp]

/-- A block that carries its full path below `above`, as do the blocks below it. -/
theorem of_place_eq {above : Path} {b : Block} (h : b.place above = b) :
    b.info.path = above ++ b.info.namePath ∧ ∀ c ∈ b.children, c.place b.info.path = c := by
  obtain ⟨info, children⟩ := b
  have hrow : ∀ (path : Path) (bs : List Block), placeAll path bs = bs → ∀ c ∈ bs, c.place path = c := by
    intro path bs hbs
    induction bs with
    | nil => simp
    | cons b bs ih =>
      rw [placeAll, List.cons.injEq] at hbs
      exact List.forall_mem_cons.2 ⟨hbs.1, ih hbs.2⟩
  rw [place] at h
  obtain ⟨hinfo, hchildren⟩ := Block.mk.inj h
  have hpath : info.path = above ++ info.namePath := (congrArg BlockInfo.path hinfo).symm
  refine ⟨hpath, hrow _ children ?_⟩
  rw [hpath]
  exact hchildren

/-- The blocks around a block of a tree, and its path, go on from those of the root. -/
theorem lineage_extends (b : Block) : ∀ (around : List Block) (above : Path), b.place above = b →
    ∀ t ∈ lineage around b, around ++ [b] <+: t.1 ++ [t.2] ∧ b.info.path <+: t.2.info.path := by
  induction b using tree_induction with
  | node b ih =>
    intro around above hplace t ht
    rw [lineage_eq] at ht
    obtain rfl | ht := List.mem_cons.1 ht
    · exact ⟨List.prefix_refl _, List.prefix_refl _⟩
    · obtain ⟨c, hc, ht⟩ := mem_lineageAll.1 ht
      have hbelow := (of_place_eq hplace).2 c hc
      obtain ⟨haround, hpath⟩ := ih c hc (around ++ [b]) b.info.path hbelow t ht
      refine ⟨(List.prefix_append _ _).trans haround, List.IsPrefix.trans ?_ hpath⟩
      rw [(of_place_eq hbelow).1]
      exact List.prefix_append _ _

theorem namePath_of_name {d : BlockData} {name : String} (h : d.name = some name) (hne : name ≠ "") :
    d.namePath = [name] := by
  unfold BlockData.namePath
  rw [h]
  split
  · rename_i hempty
    exact absurd (Option.some.inj hempty) hne
  · rename_i hnone
    cases hnone
  · rename_i hsome
    rw [Option.some.inj hsome]

theorem empty_notMem_namePath (d : BlockData) : "" ∉ d.namePath := by
  unfold BlockData.namePath
  split
  · simp
  · simp
  · rename_i hne _
    simp only [List.mem_singleton]
    exact fun hempty => hne hempty.symm

/-- No name in the path of a block is empty. -/
theorem empty_notMem_path (b : Block) : ∀ above : Path, b.place above = b → "" ∉ above →
    ∀ d ∈ preorder b, "" ∉ d.info.path := by
  induction b using tree_induction with
  | node b ih =>
    intro above hplace habove d hd
    obtain ⟨hpath, hbelow⟩ := of_place_eq hplace
    have hown : "" ∉ b.info.path := by
      rw [hpath, List.mem_append, not_or]
      exact ⟨habove, empty_notMem_namePath b.info.toBlockData⟩
    rw [preorder_eq] at hd
    obtain rfl | hd := List.mem_cons.1 hd
    · exact hown
    · obtain ⟨c, hc, hd⟩ := mem_preorderAll.1 hd
      exact ih c hc b.info.path (hbelow c hc) hown d hd

end CodeAtlas.Block

namespace CodeAtlas.Chunk

open Block (preorder preorderAll descendants lineage lineageAll)

/-! ## §2. Which blocks are shown. -/

/-- A block is shown if it and the blocks around it have names, and its path is the beginning of the
path of a block of the chunk. -/
def IsShown (chunk : BlockChunk) (around : List Block) (b : Block) : Prop :=
  (∀ a ∈ around ++ [b], a.info.namePath ≠ []) ∧ ∃ c ∈ chunk, b.info.path <+: c.info.path

instance (chunk : BlockChunk) (around : List Block) (b : Block) : Decidable (IsShown chunk around b) :=
  inferInstanceAs (Decidable (_ ∧ _))

/-- The blocks of a row of trees that are shown, in document order. -/
def shownIn (chunk : BlockChunk) (around bs : List Block) : List Block :=
  ((lineageAll around bs).filter fun t => IsShown chunk t.1 t.2).map (·.2)

theorem shownIn_cons (chunk : BlockChunk) (around : List Block) (b : Block) (bs : List Block) :
    shownIn chunk around (b :: bs)
      = ((lineage around b).filter fun t => IsShown chunk t.1 t.2).map (·.2)
        ++ shownIn chunk around bs := by
  unfold shownIn
  rw [lineageAll, List.filter_append, List.map_append]

theorem shownIn_cons_of_shown {chunk : BlockChunk} {around : List Block} {b : Block}
    (h : IsShown chunk around b) (bs : List Block) :
    shownIn chunk around (b :: bs)
      = b :: shownIn chunk (around ++ [b]) b.children ++ shownIn chunk around bs := by
  rw [shownIn_cons, Block.lineage_eq, List.filter_cons_of_pos (by simpa using h), List.map_cons]
  rfl

/-- Nothing is shown below a block that is not. -/
theorem shownIn_cons_of_not_shown {chunk : BlockChunk} {around : List Block} {b : Block}
    (h : ¬ IsShown chunk around b) {above : Path} (hplace : b.place above = b) (bs : List Block) :
    shownIn chunk around (b :: bs) = shownIn chunk around bs := by
  have hnone : (lineage around b).filter (fun t => IsShown chunk t.1 t.2) = [] := by
    rw [List.filter_eq_nil_iff]
    intro t ht
    obtain ⟨haround, hpath⟩ := Block.lineage_extends b around above hplace t ht
    rw [decide_eq_true_eq]
    -- what makes a block below shown makes the block itself shown
    rintro ⟨hnames, c, hc, hbegins⟩
    exact h ⟨fun a ha => hnames a (haround.subset ha), c, hc, hpath.trans hbegins⟩
  rw [shownIn_cons, hnone]
  rfl

/-! ## §3. The text. -/

/-- A text that shows blocks in a row: their own texts, and between them nothing but marks for code
left out, each on a line of its own with the indentation of one of the blocks around. -/
inductive Shows (around : List Block) : List Block → String → Prop
  | nothing : Shows around [] ""
  | block {b : Block} {blocks : List Block} {text : String} : Shows around blocks text →
    Shows around (b :: blocks) (b.info.ownText ++ text)
  | mark {d : Block} {blocks : List Block} {text : String} : d ∈ around → Shows around blocks text →
    Shows around blocks ("\n" ++ d.info.indentation ++ "# ... other code" ++ text)

theorem Shows.append {around xs ys : List Block} {s t : String} (hs : Shows around xs s)
    (ht : Shows around ys t) : Shows around (xs ++ ys) (s ++ t) := by
  induction hs with
  | nothing =>
    rw [String.empty_append]
    exact ht
  | block _ ih =>
    rw [String.append_assoc]
    exact .block ih
  | mark hd _ ih =>
    rw [String.append_assoc]
    exact .mark hd ih

theorem omissionMark_eq (info : BlockInfo) :
    omissionMark info = "\n" ++ info.indentation ++ "# ... other code" := by
  have hlines : Text.lines (BlockData.commentText "... other code") = ["# ... other code"] := by
    decide +kernel
  unfold omissionMark BlockData.placeholder BlockData.noteBlock BlockData.ownText
  dsimp only
  rw [hlines]
  simp [BlockData.brokenLines, Text.replicate]

theorem shows_omissionMark {around : List Block} {d : Block} (hd : d ∈ around) :
    Shows around [] (omissionMark d.info) := by
  rw [omissionMark_eq]
  simpa using Shows.mark hd .nothing

theorem find?_nameTree (chunk : BlockChunk) {path : Path} (hne : path ≠ []) :
    ((nameTree chunk).find? path).isSome = true ↔ ∃ c ∈ chunk, path <+: c.info.path := by
  rw [nameTree, NameTree.find?_ofPaths, or_iff_right hne]
  simp only [List.mem_map, Option.some.injEq, exists_exists_and_eq_and]

/-- **One child.**  It has a node below that of its parent if and only if it is shown, and the node is
the one that its path leads to. -/
theorem child?_cases {chunk : BlockChunk} (hchunk : ∀ c ∈ chunk, "" ∉ c.info.path) {path : Path}
    {t : NameTree} (hpath : (nameTree chunk).find? path = some t) {around : List Block}
    (hnames : ∀ a ∈ around, a.info.namePath ≠ []) {b : Block} (hplace : b.place path = b) :
    (∃ below, b.info.name.bind t.child? = some below ∧
      (nameTree chunk).find? b.info.path = some below ∧ IsShown chunk around b) ∨
    (b.info.name.bind t.child? = none ∧ ¬ IsShown chunk around b) := by
  have hown := (Block.of_place_eq hplace).1
  unfold IsShown
  cases hname : b.info.name with
  | none =>
    have hnone : b.info.namePath = [] := by simp [BlockData.namePath, hname]
    exact Or.inr ⟨rfl, fun h => h.1 b (by simp) hnone⟩
  | some name =>
    rw [Option.bind_some, ← NameTree.find?_concat hpath name]
    have hleads : ((nameTree chunk).find? (path ++ [name])).isSome = true ↔
        ∃ c ∈ chunk, path ++ [name] <+: c.info.path := find?_nameTree chunk (by simp)
    by_cases hempty : name = ""
    · subst hempty
      have hnone : b.info.namePath = [] := by simp [BlockData.namePath, hname]
      refine Or.inr ⟨?_, fun h => h.1 b (by simp) hnone⟩
      -- paths leave empty names out, so no node has one
      rw [← Option.not_isSome_iff_eq_none, hleads]
      rintro ⟨c, hc, hbegins⟩
      exact hchunk c hc (hbegins.subset (by simp))
    · rw [hown, Block.namePath_of_name hname hempty]
      cases hfind : (nameTree chunk).find? (path ++ [name]) with
      | none =>
        rw [hfind] at hleads
        exact Or.inr ⟨rfl, fun h => by cases hleads.2 h.2⟩
      | some below =>
        rw [hfind] at hleads
        refine Or.inl ⟨below, rfl, rfl, ?_, hleads.1 rfl⟩
        intro a ha
        obtain ha | ha := List.mem_append.1 ha
        · exact hnames a ha
        · rw [List.mem_singleton.1 ha, Block.namePath_of_name hname hempty]
          simp

/-- **A row of children.**  Under the node of their parent, those that are shown are shown in their
order with what is shown below them. -/
theorem contextChildren_shows {blocks : List Block} {chunk : BlockChunk}
    (hchunk : ∀ c ∈ chunk, "" ∉ c.info.path) {path : Path} {t : NameTree}
    (hpath : (nameTree chunk).find? path = some t) {around : List Block}
    (hnames : ∀ a ∈ around, a.info.namePath ≠ []) (parent : BlockKind) (bs : List Block)
    (hplace : ∀ b ∈ bs, b.place path = b) (hblocks : ∀ b ∈ bs, b ∈ blocks)
    (hbelow : ∀ b ∈ bs, ∀ below, (nameTree chunk).find? b.info.path = some below →
      IsShown chunk around b →
      Shows blocks (b :: shownIn chunk (around ++ [b]) b.children) (contextText below b)) :
    ∀ (hidden : Bool) (last : Option BlockInfo), (∀ info ∈ last, ∃ d ∈ blocks, d.info = info) →
      Shows blocks (shownIn chunk around bs) (contextChildren t parent hidden last bs) := by
  induction bs with
  | nil =>
    intro hidden last hlast
    unfold contextChildren
    cases last with
    | none => exact .nothing
    | some info =>
      obtain ⟨d, hd, rfl⟩ := hlast info rfl
      dsimp only
      split
      · exact shows_omissionMark hd
      · exact .nothing
  | cons b bs ih =>
    intro hidden last hlast
    obtain ⟨hplaceb, hplace⟩ := List.forall_mem_cons.1 hplace
    obtain ⟨hb, hblocks⟩ := List.forall_mem_cons.1 hblocks
    obtain ⟨hbelowb, hbelow⟩ := List.forall_mem_cons.1 hbelow
    have hrest := fun hidden => ih hplace hblocks hbelow hidden (some b.info) fun info hinfo =>
      ⟨b, hb, Option.some.inj hinfo⟩
    rw [contextChildren]
    obtain ⟨below, hnode, hleads, hshown⟩ | ⟨hnode, hshown⟩ :=
      child?_cases hchunk hpath hnames hplaceb
    · -- a mark if there is one, then the child with what is below it, then the other children
      rw [hnode, shownIn_cons_of_shown hshown]
      refine Shows.append ?_ (hrest false)
      refine Shows.append (?_ : Shows blocks [] _) (hbelowb below hleads hshown)
      split
      · exact shows_omissionMark hb
      · exact .nothing
    · rw [hnode, shownIn_cons_of_not_shown hshown hplaceb]
      exact hrest _

/-- A block whose path leads to a node, and what is shown below it. -/
theorem contextText_shows {blocks : List Block} {chunk : BlockChunk}
    (hchunk : ∀ c ∈ chunk, "" ∉ c.info.path) (b : Block) :
    ∀ (around : List Block) (above : Path) (t : NameTree), b.place above = b →
      (∀ d ∈ b.descendants, d ∈ blocks) → (∀ a ∈ around, a.info.namePath ≠ []) →
      (nameTree chunk).find? b.info.path = some t →
      Shows blocks (b :: shownIn chunk around b.children) (contextText t b) := by
  induction b using Block.tree_induction with
  | node b ih =>
    intro around above t hplace hblocks hnames hleads
    have hchildren := (Block.of_place_eq hplace).2
    have htext : contextText t b
        = b.info.ownText ++ contextChildren t b.info.kind false none b.children := by
      cases b
      rw [contextText]
    rw [htext]
    refine .block (contextChildren_shows hchunk hleads hnames _ b.children hchildren ?_ ?_ false none
      (by simp))
    · exact fun c hc => hblocks c (Block.mem_descendants_of_child hc c.self_mem_preorder)
    · intro c hc below hnode hshown
      refine ih c hc (around ++ [c]) b.info.path below (hchildren c hc) ?_ hshown.1 hnode
      intro d hd
      apply hblocks d
      apply Block.mem_descendants_of_child hc
      rw [Block.preorder_eq]
      exact List.mem_cons_of_mem _ hd

/-- **The text of a chunk.**  Of a module without a name whose blocks carry their full paths, the text
of a chunk shows the module itself and, in document order, those blocks below it that have a name, as
have the blocks around them, and whose path is the beginning of the path of a block of the chunk; there
is nothing else in it but marks for code left out. -/
theorem contextText_exact (module : Block) (hroot : module.info.namePath = [])
    (hplace : module.place [] = module) (chunk : BlockChunk) (hchunk : ∀ c ∈ chunk, c ∈ preorder module) :
    (lineageAll [] module.children).map (·.2) = module.descendants ∧
    Shows module.descendants
      (module :: ((lineageAll [] module.children).filter fun t => IsShown chunk t.1 t.2).map (·.2))
      (contextText (nameTree chunk) module) := by
  refine ⟨Block.map_lineageAll [] module.children, ?_⟩
  have hpaths : ∀ c ∈ chunk, "" ∉ c.info.path := fun c hc =>
    Block.empty_notMem_path module [] hplace (by simp) c (hchunk c hc)
  have hpath : module.info.path = [] := by
    rw [(Block.of_place_eq hplace).1, hroot, List.append_nil]
  exact contextText_shows hpaths module [] [] (nameTree chunk) hplace (fun d hd => hd) (by simp)
    (by rw [hpath]; rfl)

/-- The last line of a method. -/
def lastLine : Block :=
  ⟨{ kind := .code, content := "return side ** 2", lines := ["return side ** 2"], name := some "return"
     gapLines := 1, indentation := "    ", id := 4, path := ["Shape", "area", "return"] }, []⟩

/-- A class with a method, and behind it a block without a name around a class of the same name. -/
def twoShapes : Block :=
  ⟨{ kind := .moduleDef, content := "", id := 0, path := [] },
    [⟨{ kind := .classDef, content := "class Shape:", name := some "Shape", id := 1, path := ["Shape"] },
      [⟨{ kind := .functionDef, content := "def area(self):", lines := ["def area(self):"]
          name := some "area", gapLines := 1, indentation := "  ", id := 2, path := ["Shape", "area"] },
        [⟨{ kind := .code, content := "side = self.side", lines := ["side = self.side"]
            name := some "side", gapLines := 1, indentation := "    ", id := 3
            path := ["Shape", "area", "side"] }, []⟩,
         lastLine]⟩]⟩,
     ⟨{ kind := .compound, content := "if old:", lines := ["if old:"], gapLines := 1, id := 5, path := [] },
      [⟨{ kind := .classDef, content := "class Shape: pass", lines := ["class Shape: pass"]
          name := some "Shape", gapLines := 1, indentation := "  ", id := 6, path := ["Shape"] }, []⟩]⟩]⟩

/-- The last line of the method is shown with the method and the class around it.  The other class has
the path of the first one, but stands in a block without a name. -/
theorem contextText_exact_lastLine :
    twoShapes.info.namePath = [] ∧ twoShapes.place [] = twoShapes ∧ lastLine ∈ preorder twoShapes ∧
      contextText (nameTree [lastLine]) twoShapes
        = "class Shape:\n  def area(self):\n    # ... other code\n    return side ** 2" ∧
      (shownIn [lastLine] [] twoShapes.children).map (·.info.id) = [1, 2, 4] ∧
      Shows twoShapes.descendants (twoShapes :: shownIn [lastLine] [] twoShapes.children)
        (contextText (nameTree [lastLine]) twoShapes) := by
  have hline : lastLine ∈ preorder twoShapes := List.mem_of_getElem? (i := 4) rfl
  refine ⟨rfl, rfl, hline, by decide +kernel, by decide +kernel, ?_⟩
  exact (contextText_exact twoShapes rfl rfl [lastLine] (by simpa using hline)).2

end CodeAtlas.Chunk

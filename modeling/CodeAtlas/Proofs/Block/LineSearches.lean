import CodeAtlas.Block.Search
import CodeAtlas.Proofs.Block.Preorder
import Mathlib.Data.List.Nodup

/-!
# Searching blocks by lines

The searches by line do not look at all blocks: they leave out blocks that end before the lines, and
the search for spans leaves a row of siblings at the first one that starts behind them.  Where the
lines of blocks are nested, and siblings are in order, nothing is missed by that, and the searches
find what a look at all blocks finds.  The search for spans lists the span of a child without a look
at what is listed already, and the spans from further below only if they are new.

Main results:
  * `Block.firstFromLine_eq_find?`: the first block from a line on;
  * `Block.reached_eq_filter`: the blocks that the search for spans comes to;
  * `Block.mem_keys_spansAtLines`: the spans that it lists;
  * `Block.nodup_spansAtLinesIn`: when it lists a span twice;
  * `Block.line_searches_exhaustive`, `Block.spansAtLines_once_iff`: the searches as a whole.
-/

namespace CodeAtlas

namespace Block

/-! ## §1. Nested lines. -/

/-- The lines of the blocks of a tree are nested: each block starts before it ends, the lines of a
child lie within those of the block around it, and siblings are in the order of their first lines. -/
structure LinesNested (b : Block) : Prop where
  ordered : ∀ d ∈ b.preorder, d.info.startLine ≤ d.info.endLine
  within : ∀ d ∈ b.preorder, ∀ c ∈ d.children,
    d.info.startLine ≤ c.info.startLine ∧ c.info.endLine ≤ d.info.endLine
  sorted : ∀ d ∈ b.preorder,
    d.children.Pairwise fun c c' => c.info.startLine ≤ c'.info.startLine

theorem LinesNested.child {b c : Block} (h : b.LinesNested) (hc : c ∈ b.children) :
    c.LinesNested := by
  have hbelow : ∀ d ∈ c.preorder, d ∈ b.preorder := by
    intro d hd
    rw [preorder_eq b]
    exact List.mem_cons_of_mem _ (mem_descendants_of_child hc hd)
  exact ⟨fun d hd => h.ordered d (hbelow d hd), fun d hd => h.within d (hbelow d hd),
    fun d hd => h.sorted d (hbelow d hd)⟩

/-- All blocks of a tree lie within the lines of its root. -/
theorem LinesNested.bounds {b : Block} (h : b.LinesNested) :
    ∀ d ∈ b.preorder, b.info.startLine ≤ d.info.startLine ∧ d.info.startLine ≤ d.info.endLine ∧
      d.info.endLine ≤ b.info.endLine := by
  induction b using tree_induction with
  | node b ih =>
    intro d hd
    have hordered := h.ordered d hd
    rw [preorder_eq, List.mem_cons] at hd
    obtain hd | hd := hd
    · rw [hd] at hordered ⊢
      omega
    · obtain ⟨c, hc, hd⟩ := mem_preorderAll.1 hd
      have hinner := ih c hc (h.child hc) d hd
      have houter := h.within b (self_mem_preorder b) c hc
      omega

/-! ## §2. The first block from a line on. -/

/-- Does the block start at the line or later, or is it a leaf that reaches the line? -/
def isFrom (line : Int) (d : Block) : Bool :=
  line ≤ d.info.startLine || (d.children.isEmpty && line ≤ d.info.endLine)

theorem firstFromLineIn_eq_find? {line : Int} {bs : List Block} (h : ∀ c ∈ bs, c.LinesNested)
    (ih : ∀ c ∈ bs, c.firstFromLine line = c.descendants.find? (isFrom line)) :
    firstFromLineIn line bs = (preorderAll bs).find? (isFrom line) := by
  induction bs with
  | nil => rfl
  | cons b bs row =>
    have hrow := row (fun c hc => h c (List.mem_cons_of_mem _ hc))
      (fun c hc => ih c (List.mem_cons_of_mem _ hc))
    have hbounds := (h b List.mem_cons_self).bounds
    rw [firstFromLineIn, preorderAll, List.find?_append]
    by_cases hstart : line ≤ b.info.startLine
    · have hfrom : isFrom line b = true := by simp [isFrom, hstart]
      rw [if_pos hstart, preorder_eq, List.find?_cons_of_pos hfrom]
      rfl
    · rw [if_neg hstart]
      by_cases hend : line ≤ b.info.endLine
      · rw [if_pos hend, preorder_eq]
        by_cases hleaf : b.children.isEmpty = true
        · have hfrom : isFrom line b = true := by simp [isFrom, hleaf, hend]
          rw [if_pos hleaf, List.find?_cons_of_pos hfrom]
          rfl
        · -- the block itself is no answer, those below it are asked before its siblings
          have hfrom : ¬ isFrom line b = true := by simp [isFrom, hstart, hleaf]
          rw [if_neg hleaf, List.find?_cons_of_neg hfrom, ih b List.mem_cons_self, hrow]
          cases b.descendants.find? (isFrom line) with
          | none => rfl
          | some found => rfl
      · -- the block ends before the line, and so do all blocks below it
        have hnone : b.preorder.find? (isFrom line) = none := by
          rw [List.find?_eq_none]
          intro d hd
          have hd := hbounds d hd
          simp only [isFrom, Bool.or_eq_true, Bool.and_eq_true, decide_eq_true_eq, not_or, not_and]
          omega
        rw [if_neg hend, hnone, hrow]
        rfl

/-- **The first block from a line on** is the first one in document order. -/
theorem firstFromLine_eq_find? (line : Int) (b : Block) (h : b.LinesNested) :
    b.firstFromLine line = b.descendants.find? (isFrom line) := by
  induction b using tree_induction with
  | node b ih =>
    obtain ⟨info, children⟩ := b
    show firstFromLineIn line children = (preorderAll children).find? (isFrom line)
    exact firstFromLineIn_eq_find? (fun c hc => h.child hc) (fun c hc => ih c hc (h.child hc))

/-! ## §3. The blocks that the search for spans comes to. -/

mutual
/-- The blocks below a block that the search comes to. -/
def reached (first last : Int) : Block → List Block
  | ⟨_, children⟩ => reachedIn first last children

def reachedIn (first last : Int) : List Block → List Block
  | [] => []
  | b :: bs =>
    if b.info.endLine < first then reachedIn first last bs
    else if last < b.info.startLine then []
    else b :: reached first last b ++ reachedIn first last bs
end

/-- Does the block share a line with the given ones? -/
def touches (first last : Int) (d : Block) : Bool :=
  d.info.hasLines first last

theorem touches_iff {first last : Int} {d : Block} :
    touches first last d = true ↔ first ≤ d.info.endLine ∧ d.info.startLine ≤ last := by
  simp only [touches, BlockData.hasLines, Bool.not_eq_true', Bool.or_eq_false_iff,
    decide_eq_false_iff_not]
  omega

/-- In a row in order, no block behind one that starts behind the lines shares a line with them. -/
theorem not_touches_behind {first last : Int} {b : Block} {bs : List Block}
    (h : ∀ c ∈ b :: bs, c.LinesNested)
    (hsorted : (b :: bs).Pairwise fun c c' => c.info.startLine ≤ c'.info.startLine)
    (hbehind : last < b.info.startLine) :
    ∀ d ∈ preorderAll (b :: bs), ¬ touches first last d = true := by
  intro d hd
  obtain ⟨c, hc, hd⟩ := mem_preorderAll.1 hd
  have hbounds := (h c hc).bounds d hd
  have hstart : b.info.startLine ≤ c.info.startLine := by
    obtain rfl | hc := List.mem_cons.1 hc
    · exact Int.le_refl _
    · exact (List.pairwise_cons.1 hsorted).1 c hc
  rw [touches_iff]
  omega

theorem reachedIn_eq_filter {first last : Int} {bs : List Block} (h : ∀ c ∈ bs, c.LinesNested)
    (hsorted : bs.Pairwise fun c c' => c.info.startLine ≤ c'.info.startLine)
    (ih : ∀ c ∈ bs, c.reached first last = c.descendants.filter (touches first last)) :
    reachedIn first last bs = (preorderAll bs).filter (touches first last) := by
  induction bs with
  | nil => rfl
  | cons b bs row =>
    have hrow := row (fun c hc => h c (List.mem_cons_of_mem _ hc)) hsorted.of_cons
      (fun c hc => ih c (List.mem_cons_of_mem _ hc))
    rw [reachedIn]
    by_cases hend : b.info.endLine < first
    · -- what is below the block ends before the lines as well
      have hnone : b.preorder.filter (touches first last) = [] := by
        rw [List.filter_eq_nil_iff]
        intro d hd
        have hbounds := (h b List.mem_cons_self).bounds d hd
        rw [touches_iff]
        omega
      rw [if_pos hend, preorderAll, List.filter_append, hnone, hrow]
      rfl
    · rw [if_neg hend]
      by_cases hstart : last < b.info.startLine
      · rw [if_pos hstart, List.filter_eq_nil_iff.2 (not_touches_behind h hsorted hstart)]
      · have htouches : touches first last b = true := by
          rw [touches_iff]
          omega
        rw [if_neg hstart, preorderAll, List.filter_append, preorder_eq,
          List.filter_cons_of_pos htouches, ih b List.mem_cons_self, hrow]

/-- **Nothing is missed**: where lines are nested, the search comes to all blocks that share a line
with the given ones. -/
theorem reached_eq_filter (first last : Int) (b : Block) (h : b.LinesNested) :
    b.reached first last = b.descendants.filter (touches first last) := by
  induction b using tree_induction with
  | node b ih =>
    have hsorted := h.sorted b (self_mem_preorder b)
    obtain ⟨info, children⟩ := b
    show reachedIn first last children = (preorderAll children).filter _
    exact reachedIn_eq_filter (fun c hc => h.child hc) hsorted (fun c hc => ih c hc (h.child hc))

/-! ## §4. The spans that are listed. -/

/-- The span that a block brings to the list itself. -/
def ownSpan (first last : Int) (d : Block) : Option Span :=
  if meetsLines first last d then d.info.span else none

/-- The spans that blocks bring to the list themselves. -/
def ownSpans (first last : Int) (ds : List Block) : List Span :=
  ds.filterMap (ownSpan first last)

end Block

theorem Span.beq_iff {s t : Span} : (s == t) = true ↔ s.key = t.key := by
  show (s.key == t.key) = true ↔ s.key = t.key
  exact beq_iff_eq

theorem Span.contains_iff {spans : List Span} {s : Span} :
    spans.contains s = true ↔ s.key ∈ spans.map Span.key := by
  rw [List.contains_iff_exists_mem_beq, List.mem_map]
  simp only [beq_iff, @eq_comm _ s.key]

namespace Block

/-- Spans that are not there yet are added at the end, each once. -/
theorem addNewSpans_grows (spans more : List Span) :
    ∃ new, addNewSpans spans more = spans ++ new ∧
      ((spans.map Span.key).Nodup → ((spans ++ new).map Span.key).Nodup) ∧
      ∀ k, k ∈ (spans ++ new).map Span.key ↔ k ∈ spans.map Span.key ∨ k ∈ more.map Span.key := by
  unfold addNewSpans
  induction more generalizing spans with
  | nil => exact ⟨[], by simp⟩
  | cons s more ih =>
    rw [List.foldl_cons]
    by_cases hthere : spans.contains s = true
    · obtain ⟨new, hgrown, hnodup, hmem⟩ := ih spans
      rw [if_pos hthere]
      refine ⟨new, hgrown, hnodup, ?_⟩
      intro k
      rw [hmem, List.map_cons, List.mem_cons]
      rw [Span.contains_iff] at hthere
      constructor
      · tauto
      · intro hk
        obtain hk | hk | hk := hk
        · exact Or.inl hk
        · exact Or.inl (hk ▸ hthere)
        · exact Or.inr hk
    · obtain ⟨new, hgrown, hnodup, hmem⟩ := ih (spans ++ [s])
      rw [if_neg hthere]
      rw [List.append_assoc] at hgrown hnodup hmem
      refine ⟨[s] ++ new, hgrown, ?_, ?_⟩
      · intro hspans
        apply hnodup
        rw [Span.contains_iff] at hthere
        rw [List.map_append, List.map_singleton, ← List.concat_eq_append, List.nodup_concat]
        exact ⟨hthere, hspans⟩
      · intro k
        rw [hmem]
        simp only [List.map_append, List.map_cons, List.map_nil, List.mem_append, List.mem_cons,
          List.not_mem_nil, or_false, or_assoc]

variable {first last : Int}

theorem ownSpans_cons (d : Block) (ds : List Block) :
    ownSpans first last (d :: ds) = (ownSpan first last d).toList ++ ownSpans first last ds := by
  unfold ownSpans
  rw [List.filterMap_cons]
  cases ownSpan first last d with
  | none => rfl
  | some s => rfl

theorem ownSpans_append (ds ds' : List Block) :
    ownSpans first last (ds ++ ds') = ownSpans first last ds ++ ownSpans first last ds' :=
  List.filterMap_append

/-- **One step.**  A block of the row that the search comes to brings its own span, and then what is
new from below it. -/
theorem spansAtLinesIn_met {spans : List Span} {b : Block} {bs : List Block}
    (hend : ¬ b.info.endLine < first) (hstart : ¬ last < b.info.startLine) :
    spansAtLinesIn first last spans (b :: bs)
      = spansAtLinesIn first last
          (addNewSpans (spans ++ (ownSpan first last b).toList) (b.spansAtLines first last)) bs := by
  rw [spansAtLinesIn, if_neg hend, if_neg hstart]
  unfold ownSpan
  cases b.info.span with
  | none => simp
  | some s =>
    by_cases hmeets : meetsLines first last b = true
    · simp [hmeets]
    · simp [hmeets]

/-- After this step the list has what was there before, the block's own span and what is brought from
below it. -/
theorem mem_keys_step {b : Block} {below : List Span}
    (h : ∀ k, k ∈ below.map Span.key ↔
      k ∈ (ownSpans first last (b.reached first last)).map Span.key) (spans : List Span) :
    ∀ k, k ∈ (addNewSpans (spans ++ (ownSpan first last b).toList) below).map Span.key ↔
      k ∈ spans.map Span.key ∨
        k ∈ (ownSpans first last (b :: b.reached first last)).map Span.key := by
  intro k
  obtain ⟨new, hgrown, -, hmem⟩ :=
    addNewSpans_grows (spans ++ (ownSpan first last b).toList) below
  rw [hgrown, hmem, h, ownSpans_cons]
  simp only [List.map_append, List.mem_append, or_assoc]

theorem mem_keys_spansAtLinesIn {bs : List Block}
    (ih : ∀ c ∈ bs, ∀ k, k ∈ (c.spansAtLines first last).map Span.key ↔
      k ∈ (ownSpans first last (c.reached first last)).map Span.key) (spans : List Span) :
    ∀ k, k ∈ (spansAtLinesIn first last spans bs).map Span.key ↔
      k ∈ spans.map Span.key ∨ k ∈ (ownSpans first last (reachedIn first last bs)).map Span.key := by
  induction bs generalizing spans with
  | nil =>
    intro k
    simp [spansAtLinesIn, reachedIn, ownSpans]
  | cons b bs row =>
    have hrow := row (fun c hc => ih c (List.mem_cons_of_mem _ hc))
    intro k
    rw [reachedIn]
    by_cases hend : b.info.endLine < first
    · rw [spansAtLinesIn, if_pos hend, if_pos hend, hrow]
    · by_cases hstart : last < b.info.startLine
      · rw [spansAtLinesIn, if_neg hend, if_pos hstart, if_neg hend, if_pos hstart]
        simp [ownSpans]
      · rw [spansAtLinesIn_met hend hstart, if_neg hend, if_neg hstart, hrow,
          mem_keys_step (ih b List.mem_cons_self), ownSpans_append, List.map_append,
          List.mem_append, or_assoc]

/-- **The spans that are listed** are those of the blocks that the search comes to. -/
theorem mem_keys_spansAtLines (b : Block) :
    ∀ k, k ∈ (b.spansAtLines first last).map Span.key ↔
      k ∈ (ownSpans first last (b.reached first last)).map Span.key := by
  induction b using tree_induction with
  | node b ih =>
    obtain ⟨info, children⟩ := b
    intro k
    show k ∈ (spansAtLinesIn first last [] children).map Span.key ↔
      k ∈ (ownSpans first last (reachedIn first last children)).map Span.key
    rw [mem_keys_spansAtLinesIn ih]
    simp

/-! ## §5. Spans that are listed twice. -/

/-- The blocks of a row that the search comes to: those that end before the lines are left out, and
it leaves the row at the first of the others that starts behind them. -/
def met (first last : Int) (bs : List Block) : List Block :=
  (bs.filter fun b => first ≤ b.info.endLine).takeWhile fun b => b.info.startLine ≤ last

theorem met_cons (b : Block) (bs : List Block) :
    met first last (b :: bs) =
      if b.info.endLine < first then met first last bs
      else if last < b.info.startLine then [] else b :: met first last bs := by
  unfold met
  by_cases hend : b.info.endLine < first
  · rw [if_pos hend, List.filter_cons_of_neg (by simpa using hend)]
  · rw [if_neg hend, List.filter_cons_of_pos (by simpa using hend)]
    by_cases hstart : last < b.info.startLine
    · rw [if_pos hstart, List.takeWhile_cons_of_neg (by simpa using hstart)]
    · rw [if_neg hstart, List.takeWhile_cons_of_pos (by simpa using hstart)]

/-- The block `c'` brings a span itself that `c`, or a block below `c` that the search comes to, has
brought. -/
def Repeats (first last : Int) (c c' : Block) : Prop :=
  ∃ s', ownSpan first last c' = some s' ∧
    ∃ d ∈ c :: c.reached first last, ∃ s, ownSpan first last d = some s ∧ (s == s') = true

theorem repeats_iff {c c' : Block} : Repeats first last c c' ↔
    ∃ s', ownSpan first last c' = some s' ∧
      s'.key ∈ (ownSpans first last (c :: c.reached first last)).map Span.key := by
  unfold Repeats ownSpans
  simp only [Span.beq_iff, List.mem_map, List.mem_filterMap]
  constructor
  · intro h
    obtain ⟨s', hs', d, hd, s, hs, hkey⟩ := h
    exact ⟨s', hs', s, ⟨d, hd, hs⟩, hkey⟩
  · intro h
    obtain ⟨s', hs', s, ⟨d, hd, hs⟩, hkey⟩ := h
    exact ⟨s', hs', d, hd, s, hs, hkey⟩

/-- What one block of the row does to a list: it stays without a span twice exactly if the block's own
span is not in it. -/
theorem nodup_addNewSpans (spans more : List Span) (b : Block) :
    ((addNewSpans (spans ++ (ownSpan first last b).toList) more).map Span.key).Nodup ↔
      (spans.map Span.key).Nodup ∧
        ∀ s, ownSpan first last b = some s → s.key ∉ spans.map Span.key := by
  obtain ⟨new, hgrown, hkeeps, -⟩ :=
    addNewSpans_grows (spans ++ (ownSpan first last b).toList) more
  have hown : ((spans ++ (ownSpan first last b).toList).map Span.key).Nodup ↔
      (spans.map Span.key).Nodup ∧
        ∀ s, ownSpan first last b = some s → s.key ∉ spans.map Span.key := by
    cases ownSpan first last b with
    | none => simp
    | some s =>
      rw [Option.toList_some, List.map_append, List.map_singleton, ← List.concat_eq_append,
        List.nodup_concat, and_comm]
      simp
  rw [hgrown, ← hown]
  constructor
  · intro h
    rw [List.map_append] at h
    exact h.of_append_left
  · exact hkeeps

/-- The list of a row has no span twice exactly if there was none before, no block of the row brings
a span that was there before, and none repeats one from further ahead in the row. -/
theorem nodup_spansAtLinesIn (spans : List Span) (bs : List Block) :
    ((spansAtLinesIn first last spans bs).map Span.key).Nodup ↔
      (spans.map Span.key).Nodup ∧
      (∀ c ∈ met first last bs, ∀ s, ownSpan first last c = some s → s.key ∉ spans.map Span.key) ∧
      (met first last bs).Pairwise fun c c' => ¬ Repeats first last c c' := by
  induction bs generalizing spans with
  | nil => simp [spansAtLinesIn, met]
  | cons b bs row =>
    rw [met_cons]
    by_cases hend : b.info.endLine < first
    · rw [spansAtLinesIn, if_pos hend, if_pos hend, row]
    · by_cases hstart : last < b.info.startLine
      · rw [spansAtLinesIn, if_neg hend, if_pos hstart, if_neg hend, if_pos hstart]
        simp
      · -- a later block meets the spans from before, and those of this block and from below it
        have hlater : (∀ c ∈ met first last bs, ∀ s, ownSpan first last c = some s → s.key ∉
              (addNewSpans (spans ++ (ownSpan first last b).toList)
                (b.spansAtLines first last)).map Span.key) ↔
            (∀ c ∈ met first last bs, ∀ s, ownSpan first last c = some s →
              s.key ∉ spans.map Span.key) ∧
            ∀ c ∈ met first last bs, ¬ Repeats first last b c := by
          simp only [mem_keys_step (mem_keys_spansAtLines b), repeats_iff, not_or, not_exists,
            not_and]
          constructor
          · intro h
            exact ⟨fun c hc s hs => (h c hc s hs).1, fun c hc s hs => (h c hc s hs).2⟩
          · intro h c hc s hs
            exact ⟨h.1 c hc s hs, h.2 c hc s hs⟩
        rw [spansAtLinesIn_met hend hstart, if_neg hend, if_neg hstart, row, nodup_addNewSpans,
          hlater, List.forall_mem_cons, List.pairwise_cons]
        tauto

/-! ## §6. The searches as a whole. -/

theorem meetsLines_iff {d : Block} : meetsLines first last d = true ↔
    d.children = [] ∨ (first ≤ d.info.startLine ∧ d.info.endLine ≤ last) ∨
      d.info.startLine = first ∨ d.info.endLine = last := by
  simp [meetsLines, or_assoc]

theorem ownSpan_eq_some {d : Block} {s : Span} :
    ownSpan first last d = some s ↔ meetsLines first last d = true ∧ d.info.span = some s := by
  unfold ownSpan
  by_cases hmeets : meetsLines first last d = true
  · simp [hmeets]
  · simp [hmeets]

/-- **The searches by line are exhaustive.**  Where lines are nested, the first block from a line on is
the first of all blocks below, in document order, that starts at the line or later or is a leaf that
reaches it; and the spans listed for some lines are those of all blocks below that share a line with
them and are leaves, lie inside them, or are flush with one end of them. -/
theorem line_searches_exhaustive (b : Block) (h : b.LinesNested) :
    (∀ line : Int, b.firstFromLine line = b.descendants.find? fun d =>
      line ≤ d.info.startLine || (d.children.isEmpty && line ≤ d.info.endLine)) ∧
    ∀ (first last : Int) (s : Span), (∃ t ∈ b.spansAtLines first last, (t == s) = true) ↔
      ∃ d ∈ b.descendants, (∃ t, d.info.span = some t ∧ (t == s) = true) ∧
        (first ≤ d.info.endLine ∧ d.info.startLine ≤ last) ∧
        (d.children = [] ∨ (first ≤ d.info.startLine ∧ d.info.endLine ≤ last) ∨
          d.info.startLine = first ∨ d.info.endLine = last) := by
  constructor
  · intro line
    exact firstFromLine_eq_find? line b h
  · intro first last s
    have hlisted : (∃ t ∈ b.spansAtLines first last, (t == s) = true) ↔
        s.key ∈ (b.spansAtLines first last).map Span.key := by
      simp only [Span.beq_iff, List.mem_map]
    rw [hlisted, mem_keys_spansAtLines, reached_eq_filter first last b h]
    simp only [ownSpans, List.mem_map, List.mem_filterMap, List.mem_filter, touches_iff,
      ownSpan_eq_some, meetsLines_iff, Span.beq_iff]
    constructor
    · intro hfound
      obtain ⟨t, ⟨d, ⟨hd, hshares⟩, hmeets, hspan⟩, hkey⟩ := hfound
      exact ⟨d, hd, ⟨t, hspan, hkey⟩, hshares, hmeets⟩
    · intro hfound
      obtain ⟨d, hd, ⟨t, hspan, hkey⟩, hshares, hmeets⟩ := hfound
      exact ⟨t, ⟨d, ⟨hd, hshares⟩, hmeets, hspan⟩, hkey⟩

/-- A span with nothing but a name. -/
def spanNamed (name : String) : Span :=
  { id := name, role := .implementation, startLine := 1, endLine := 9 }

/-- A block on the given lines that belongs to the span of the given name. -/
def onLines (id : Nat) (first last : Int) (span : String) (children : List Block) : Block :=
  ⟨{ kind := .code, content := "", id, path := [], startLine := first, endLine := last,
     span := some (spanNamed span) }, children⟩

/-- A module with two functions, of which the first has empty lines at its end. -/
def twoFunctions : Block :=
  onLines 0 1 9 "module" [
    onLines 1 1 5 "f" [onLines 2 2 2 "f" [], onLines 3 3 3 "note" []],
    onLines 4 7 9 "g" [onLines 5 8 9 "g" []]]

theorem linesNested_twoFunctions : twoFunctions.LinesNested where
  ordered := by decide
  within := by decide
  sorted := by decide

/-- From the fourth line on, the first block is the second function, as there is none in the first
one.  The third and fourth line list the note in the first function, but not the function itself. -/
theorem line_searches_exhaustive_twoFunctions :
    twoFunctions.LinesNested ∧
    (twoFunctions.firstFromLine 4).map (·.info.id) = some 4 ∧
    (∃ t ∈ twoFunctions.spansAtLines 3 4, (t == spanNamed "note") = true) ∧
    ¬ ∃ t ∈ twoFunctions.spansAtLines 3 4, (t == spanNamed "f") = true := by
  obtain ⟨hfirst, hspans⟩ := line_searches_exhaustive twoFunctions linesNested_twoFunctions
  refine ⟨linesNested_twoFunctions, ?_, ?_, ?_⟩
  · rw [hfirst]
    decide
  · refine (hspans 3 4 _).2 ⟨onLines 3 3 3 "note" [], ?_, ?_, by decide, Or.inl rfl⟩
    · exact List.mem_cons_of_mem _ (List.mem_cons_of_mem _ List.mem_cons_self)
    · exact ⟨spanNamed "note", rfl, by decide⟩
  · rw [hspans]
    intro hlisted
    obtain ⟨d, hd, ⟨t, hspan, hkey⟩, hshares, hmeets⟩ := hlisted
    have hnone : ∀ d ∈ twoFunctions.descendants, d.info.span.any (· == spanNamed "f") = true →
        touches 3 4 d = true → ¬ meetsLines 3 4 d = true := by decide
    refine hnone d hd ?_ (touches_iff.2 hshares) (meetsLines_iff.2 hmeets)
    rw [hspan]
    exact hkey

/-- **A span is listed once** exactly if no child that the search comes to repeats a span that a child
in front of it, or a block below that child, has brought. -/
theorem spansAtLines_once_iff (first last : Int) (b : Block) :
    ((b.spansAtLines first last).Pairwise fun s t => ¬ (s == t) = true) ↔
      (met first last b.children).Pairwise fun c c' => ¬ Repeats first last c c' := by
  have hkeys : ((b.spansAtLines first last).Pairwise fun s t => ¬ (s == t) = true) ↔
      ((b.spansAtLines first last).map Span.key).Nodup := by
    rw [List.Nodup, List.pairwise_map]
    simp only [Span.beq_iff]
  obtain ⟨info, children⟩ := b
  rw [hkeys]
  show ((spansAtLinesIn first last [] children).map Span.key).Nodup ↔ _
  rw [nodup_spansAtLinesIn]
  simp

/-- A module with two statements of one span. -/
def twoStatements : Block :=
  onLines 0 1 2 "module" [onLines 1 1 1 "s" [], onLines 2 2 2 "s" []]

/-- The second statement repeats the span of the first one. -/
theorem spansAtLines_once_iff_twoStatements :
    twoStatements.LinesNested ∧
    ¬ (twoStatements.spansAtLines 1 2).Pairwise fun s t => ¬ (s == t) = true := by
  refine ⟨⟨by decide, by decide, by decide⟩, ?_⟩
  rw [spansAtLines_once_iff]
  show ¬ [onLines 1 1 1 "s" [], onLines 2 2 2 "s" []].Pairwise _
  intro honce
  refine (List.pairwise_cons.1 honce).1 _ List.mem_cons_self ?_
  exact ⟨spanNamed "s", rfl, _, List.mem_cons_self, spanNamed "s", rfl, by decide⟩

end Block

end CodeAtlas

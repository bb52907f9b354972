import CodeAtlas.Proofs.Block.Preorder
import CodeAtlas.Proofs.Outcome
import CodeAtlas.Proofs.Parse.Steps
import CodeAtlas.Proofs.Source.Decoding

/-!
# Nothing of a source is lost by reading it

The blocks of a module, one after the other in document order, spell the source: the gap in front
of each and its content, written as bytes, are the bytes that the root of the syntax tree covers.

A block may stop early, so that the block around it goes on in the middle of a node.  What carries
the proof is that reading always stands at the end of a node: `Spells` says of a way to read one
block that what it has read reaches up to the end of the node at which it stopped, and `readRow`
hands this on from block to block (`RowRead`).
-/

namespace CodeAtlas

/-! ## §1. The text of blocks. -/

namespace Block

/-- The text of blocks as it stands in the source: of each the gap in front of it and its own
content. -/
def sourceText (blocks : List Block) : String :=
  String.join (blocks.map fun b => b.info.gap ++ b.info.content)

theorem sourceText_nil : sourceText [] = "" :=
  rfl

theorem sourceText_append (xs ys : List Block) :
    sourceText (xs ++ ys) = sourceText xs ++ sourceText ys := by
  unfold sourceText
  rw [List.map_append, String.join_append]

/-- The text of a tree: that of its root, then that of the trees below. -/
theorem sourceText_preorder (b : Block) :
    sourceText b.preorder = b.info.gap ++ b.info.content ++ sourceText (preorderAll b.children) := by
  obtain ⟨info, children⟩ := b
  rw [preorder]
  unfold sourceText
  rw [List.map_cons, String.join_cons]

theorem sourceText_preorderAll_cons (b : Block) (bs : List Block) :
    sourceText (preorderAll (b :: bs)) = sourceText b.preorder ++ sourceText (preorderAll bs) := by
  rw [preorderAll, sourceText_append]

/-- Spans change no text. -/
theorem sourceText_assignSpansAll (spanOf : Nat → Option Span) (bs : List Block) :
    sourceText (preorderAll (assignSpansAll spanOf bs)) = sourceText (preorderAll bs) := by
  have htexts := congrArg (List.map fun info : BlockInfo => info.gap ++ info.content)
    (infos_assignSpansAll spanOf bs)
  rw [List.map_map, List.map_map] at htexts
  exact congrArg String.join htexts

end Block

open Block

/-- Noting mistakes changes no text. -/
theorem Refine.sourceText_markAllRepeats (bs : List Block) :
    sourceText (preorderAll (markAllRepeats bs)) = sourceText (preorderAll bs) :=
  congrArg String.join
    (map_preorderAll_markAllRepeats (f := fun info => info.gap ++ info.content) (fun _ _ => rfl) bs)

/-- A new block keeps the gap and the content that it is given. -/
theorem BlockData.make_ok {d made : BlockData} (h : d.make = .ok made) :
    made.gap = d.gap ∧ made.content = d.content := by
  unfold make at h
  split at h
  next =>
    have hmade := Except.ok.inj h
    subst hmade
    dsimp only
    split
    next => exact ⟨rfl, rfl⟩
    next => exact ⟨rfl, rfl⟩
  next => exact absurd h (by simp)

namespace Parse

open SyntaxTree

variable {s : Setting}

/-! ## §2. The text of one block. -/

/-- Gap and content of a block are cut out of the source. -/
theorem blockData_ok {m : Meaning} {node : Nat} {start : Int} {raw : BlockData}
    (h : blockData s m node start = .ok raw) :
    Source.cut s.tree.source start (s.tree.start node) = .ok raw.gap
    ∧ Source.cut s.tree.source (s.tree.start node)
        (m.firstChild.elim (s.tree.stop node) (s.tree.endBefore node)) = .ok raw.content := by
  unfold blockData at h
  simp only [Outcome.bind_ok] at h
  obtain ⟨gap, hgap, content, hcontent, _, _, _, _, _, _, hraw⟩ := h
  have hmade := Except.ok.inj hraw
  subst hmade
  exact ⟨hgap, hcontent⟩

theorem namedData_ok {m : Meaning} {siblings : List (BlockKind × Option String)}
    {raw d : BlockData} (h : namedData s m siblings raw = .ok d) :
    d.gap = raw.gap ∧ d.content = raw.content := by
  unfold namedData at h
  rw [Outcome.bind_ok] at h
  obtain ⟨made, hmade, hd⟩ := h
  obtain ⟨hgap, hcontent⟩ := BlockData.make_ok hmade
  have heq := Except.ok.inj hd
  subst heq
  exact ⟨hgap, hcontent⟩

/-- Finishing a block changes no text. -/
theorem finish_ok {above : List OpenBlock} {d final : BlockData} {id : Nat}
    {children refined : List Block} {p q : Progress}
    (h : finish s above d id children p = .ok ((final, refined), q)) :
    final.gap = d.gap ∧ final.content = d.content
    ∧ sourceText (preorderAll refined) = sourceText (preorderAll children) := by
  unfold finish at h
  split at h
  next =>
    rw [get_bind_ok, modify_if] at h
    obtain ⟨heq, -⟩ := pure_ok.mp h
    obtain ⟨rfl, rfl⟩ := Prod.mk.inj heq
    exact ⟨rfl, rfl, Refine.sourceText_markAllRepeats children⟩
  next =>
    obtain ⟨heq, -⟩ := pure_ok.mp h
    obtain ⟨rfl, rfl⟩ := Prod.mk.inj heq
    exact ⟨rfl, rfl, rfl⟩

/-! ## §3. The text of a row of blocks. -/

/-- A way to read one block spells the source: what it has read of a node reaches from where its
gap begins to the end of the node at which it stopped, which is the node itself or lies below. -/
def Spells (s : Setting)
    (readOne : List (BlockKind × Option String) → Nat → Int → Option Nat → Reading Read) : Prop :=
  ∀ siblings top node start current p read q, s.tree.Below top node → 0 ≤ start →
    start ≤ s.tree.start node → readOne siblings node start current p = .ok (read, q) →
    Source.cut s.tree.source start (s.tree.stop (read.last.getD node))
        = .ok (sourceText read.block.preorder)
    ∧ ∀ l, read.last = some l → s.tree.Below node l

/-- The blocks of a row, read from `start` on, spell the source as far as it is used up, and the
row goes on at a node within `origin` that is not reached yet. -/
structure RowRead (s : Setting) (origin : Nat) (start : Int) (node : Nat) (below : Below) : Prop where
  within : s.tree.Below origin node
  start_le : start ≤ below.stop
  stop_le : below.stop ≤ s.tree.start node
  text : Source.cut s.tree.source start below.stop = .ok (sourceText (preorderAll below.children))

/-- How a row ends: at a node within `origin`, or where nothing of `origin` is left. -/
structure RowDone (s : Setting) (origin : Nat) (start : Int) (below : Below) (last : Option Nat) :
    Prop where
  start_le : start ≤ below.stop
  stop_le : below.stop ≤ s.tree.stop origin
  stop_eq : last = none → origin ≠ 0 → below.stop = s.tree.stop origin
  stopped : ∀ l, last = some l → s.tree.Below origin l ∧ below.stop = s.tree.stop l
  text : Source.cut s.tree.source start below.stop = .ok (sourceText (preorderAll below.children))

/-- **A row of blocks spells the source from where it begins to where it ends.** -/
theorem readRow_done (ht : s.tree.Tiled)
    {readOne : List (BlockKind × Option String) → Nat → Int → Option Nat → Reading Read}
    (hone : Spells s readOne) {origin node fuel : Nat} {last l : Option Nat} {atTop : Bool}
    {start : Int} {below found : Below} {p q : Progress} (hnonneg : 0 ≤ start)
    (hrow : RowRead s origin start node below)
    (h : readRow s origin last atTop readOne fuel node below p = .ok ((found, l), q)) :
    RowDone s origin start found l := by
  refine readRow_rule (fun node below _ => RowRead s origin start node below)
    (fun found l _ => RowDone s origin start found l) ?_ fuel node below p found l q hrow h
  intro node below p read q hinv hread
  obtain ⟨hwithin, hsame⟩ := enterBody_spec ht hinv.within
  have hreach : below.stop ≤ s.tree.start (enterBody s.tree node) := by
    rw [hsame]
    exact hinv.stop_le
  have hstop : 0 ≤ below.stop := Int.le_trans hnonneg hinv.start_le
  obtain ⟨htext, hlast⟩ := hone _ origin _ _ _ _ _ _ hwithin hstop hreach hread
  -- the node at which the block stopped lies within the origin, behind the start of the block
  obtain ⟨hbelow, hforward⟩ : s.tree.Below origin (read.last.getD (enterBody s.tree node))
      ∧ s.tree.start (enterBody s.tree node)
        ≤ s.tree.stop (read.last.getD (enterBody s.tree node)) := by
    cases hl : read.last with
    | none => exact ⟨hwithin, ht.forward _⟩
    | some n =>
      have hn := hlast n hl
      have hbounds := ht.below_bounds hn
      exact ⟨hwithin.trans hn, Int.le_trans hbounds.1 (ht.forward n)⟩
  dsimp only
  generalize read.last.getD (enterBody s.tree node) = node' at htext hbelow hforward ⊢
  -- what was read before joins what this block spells, since it began where the row had come to
  have hgrown : Source.cut s.tree.source start (s.tree.stop node')
      = .ok (sourceText (preorderAll (below.children ++ [read.block]))) := by
    rw [preorderAll_append, sourceText_append, sourceText_preorderAll_cons]
    have happend := Source.cut_append hnonneg hinv.start_le (by omega) hinv.text htext
    rw [happend, preorderAll, sourceText_nil, String.append_empty]
  have hstart := hinv.start_le
  refine ⟨?_, ?_, ?_⟩
  · intro _
    refine ⟨by unfold Below.after; dsimp only; omega, (ht.below_bounds hbelow).2, ?_, ?_, hgrown⟩
    · intro hnone
      exact absurd hnone (by simp)
    · intro n hn
      rw [← Option.some.inj hn]
      exact ⟨hbelow, rfl⟩
  · intro _ hfollow
    obtain ⟨hle, heq⟩ := following_none ht hbelow hfollow
    refine ⟨by unfold Below.after; dsimp only; omega, hle, fun _ hzero => heq hzero, ?_, hgrown⟩
    intro n hn
    exact absurd hn (by simp)
  · intro next _ hfollow
    obtain ⟨hnext, hle⟩ := following_some ht hbelow hfollow
    exact ⟨hnext, by unfold Below.after; dsimp only; omega, hle, hgrown⟩

/-! ## §4. The text of a block with all that is below it. -/

/-- The blocks below a block spell the source from the end of its own content on: up to the end of
its node, or to the end of a node below at which it stopped early. -/
theorem readBelow_done (ht : s.tree.Tiled) {m : Meaning} {node : Nat} (hm : m.Placed s.tree node)
    {readOne : List (BlockKind × Option String) → Nat → Int → Option Nat → Reading Read}
    (hone : Spells s readOne) (hnonneg : 0 ≤ s.tree.start node) {atTop : Bool}
    {span last : Option Nat} {below : Below} {p q : Progress}
    (h : readBelow s m node atTop readOne span p = .ok ((below, last), q)) :
    s.tree.start node ≤ m.firstChild.elim (s.tree.stop node) (s.tree.endBefore node)
    ∧ m.firstChild.elim (s.tree.stop node) (s.tree.endBefore node) ≤ below.stop
    ∧ below.stop ≤ s.tree.stop node
    ∧ (last = none → node ≠ 0 → below.stop = s.tree.stop node)
    ∧ (∀ l, last = some l → s.tree.Below node l ∧ below.stop = s.tree.stop l)
    ∧ Source.cut s.tree.source (m.firstChild.elim (s.tree.stop node) (s.tree.endBefore node))
        below.stop = .ok (sourceText (preorderAll below.children)) := by
  unfold readBelow at h
  cases hf : m.firstChild with
  | none =>
    rw [hf] at h
    obtain ⟨hfound, -⟩ := pure_ok.mp h
    obtain ⟨rfl, rfl⟩ := Prod.mk.inj hfound
    refine ⟨ht.forward node, Int.le_refl _, Int.le_refl _, fun _ _ => rfl, ?_,
      Source.cut_self _ _⟩
    intro l hl
    exact absurd hl (by simp)
  | some first =>
    rw [hf] at h
    dsimp only [Option.elim]
    have hbounds := ht.endBefore_bounds (.inr (hm.nested.first_below hf))
    have hrow : RowRead s (m.checked.getD node) (s.tree.endBefore node first) first
        { span, stop := s.tree.endBefore node first } :=
      ⟨hm.first first hf, Int.le_refl _, hbounds.2, Source.cut_self _ _⟩
    have hdone := readRow_done ht hone (by omega) hrow h
    have hanswers := hm.nested.answers
    refine ⟨hbounds.1, hdone.start_le, ?_, ?_, ?_, hdone.text⟩
    · rw [← hm.stop_checked]
      exact hdone.stop_le
    · intro hnone hzero
      rw [← hm.stop_checked]
      refine hdone.stop_eq hnone ?_
      rcases hanswers with heq | hbelow
      · rw [heq]
        exact hzero
      · exact ht.ne_zero_of_below hbelow
    · intro l hl
      obtain ⟨hwithin, hstop⟩ := hdone.stopped l hl
      refine ⟨?_, hstop⟩
      rcases hanswers with heq | hbelow
      · rw [← heq]
        exact hwithin
      · exact hbelow.trans hwithin

/-- Reading a node spells the source, whatever lies below it. -/
theorem readNode_spells (ht : s.tree.Tiled)
    (hfaithful : Faithful s.tree s.captures s.dialect.queries) (htweaked : s.tweaked = false) :
    ∀ (fuel : Nat) (above : List OpenBlock), Spells s (readNode s fuel above)
  | 0, _ => by
    intro siblings top node start current p read q _ _ _ h
    exact absurd h not_throw_ok
  | fuel + 1, above => by
    intro siblings top node start current p read q hnode hnonneg hstart h
    obtain ⟨depth, m, raw, d, span, below, waited, spanIds, final, children, p₁, p₂, p₃, p₄, p₅,
      hdepth, hm, hraw, hd, -, -, hbelow, -, hfinish, -, -, hblock⟩ := readNode_ok h
    obtain rfl : fuel = depth := by omega
    rw [htweaked] at hm
    have hplaced := Meaning.ofNode_placed hfaithful hm
    obtain ⟨hgap, hcontent⟩ := blockData_ok hraw
    obtain ⟨hdgap, hdcontent⟩ := namedData_ok hd
    obtain ⟨hfgap, hfcontent, hchildren⟩ := finish_ok hfinish
    obtain ⟨hfrom, hto, -, hwhole, hstopped, htext⟩ := readBelow_done ht hplaced
      (readNode_spells ht hfaithful htweaked fuel _) (by omega) hbelow
    -- a block that does not stop early uses its node up
    have hend : below.stop = s.tree.stop (read.last.getD node) := by
      cases hl : read.last with
      | none => exact hwhole hl (ht.ne_zero_of_below hnode)
      | some l => exact (hstopped l hl).2
    refine ⟨?_, fun l hl => (hstopped l hl).1⟩
    have hown := Source.cut_append hnonneg hstart hfrom hgap hcontent
    have hall := Source.cut_append hnonneg (by omega) hto hown htext
    rw [← hend, hall, hblock, sourceText_preorder]
    dsimp only
    rw [hfgap, hfcontent, hchildren, hdgap, hdcontent]

/-! ## §5. The text of a module. -/

/-- The blocks of the module begin with the first child of the root. -/
def OpensAtFirstChild (s : Setting) : Prop :=
  ∃ m first, Meaning.ofNode s.tree s.captures s.dialect s.tweaked 0 = .ok m
    ∧ m.firstChild = some first ∧ (s.tree.children 0).head? = some first

/-- **Reading loses nothing**: gaps and contents of the blocks of a module, in document order and
written as bytes, are the bytes that the root covers. -/
theorem parse_lossless (s : Setting) (module : Module) (ht : s.tree.Tiled)
    (hfaithful : Faithful s.tree s.captures s.dialect.queries) (htweaked : s.tweaked = false)
    (hopens : OpensAtFirstChild s) (h : parse s = .ok module) :
    Source.encode (sourceText module.root.descendants)
      = .ok (Source.slice s.tree.source (s.tree.start 0) (s.tree.stop 0)) := by
  obtain ⟨root, p, hroot, rfl⟩ := parse_ok h
  obtain ⟨m, raw, d, below, last, spanIds, final, children, p₁, p₂, hm, -, -, hbelow, hfinish, -,
    hend⟩ := readRoot_ok hroot
  obtain ⟨m', first, hm', hfirst, hhead⟩ := hopens
  obtain rfl : m = m' := Except.ok.inj (hm.symm.trans hm')
  rw [htweaked] at hm
  obtain ⟨-, hfrom, hto, -, -, htext⟩ := readBelow_done ht (Meaning.ofNode_placed hfaithful hm)
    (readNode_spells ht hfaithful htweaked _ _) ht.start_nonneg hbelow
  -- the module has no content of its own, and nothing lies before its first block
  rw [hfirst] at hfrom htext
  dsimp only [Option.elim] at hfrom htext
  rw [ht.endBefore_head? hhead] at hfrom htext
  obtain ⟨-, -, hchildren⟩ := finish_ok hfinish
  refine Source.encode_of_decode ?_
  show Source.cut s.tree.source (s.tree.start 0) (s.tree.stop 0) = _
  have hspans : sourceText (root.assignSpans p.ledger.spanOfBlock).descendants
      = sourceText (preorderAll root.children) := by
    obtain ⟨info, roots⟩ := root
    rw [assignSpans]
    exact sourceText_assignSpansAll _ _
  rw [hspans]
  rcases hend with ⟨-, gap, space, hgap, hspace, rfl⟩ | ⟨hstop, rfl⟩
  · -- blanks are left at the end of the root
    obtain ⟨hsgap, hscontent⟩ := BlockData.make_ok hspace
    rw [preorderAll_append, sourceText_append, hchildren, sourceText_preorderAll_cons,
      sourceText_preorder]
    dsimp only
    rw [hsgap, hscontent]
    have hall := Source.cut_append ht.start_nonneg hfrom hto htext hgap
    rw [hall]
    simp only [spaceData, preorderAll, sourceText_nil, String.append_empty]
  · have heq : below.stop = s.tree.stop 0 := by omega
    rw [hchildren, ← heq]
    exact htext

/-- An `if` whose block stops after its first statement: the module goes on with the second one,
in the middle of the `if`. -/
def earlyStop : Setting :=
  { tree :=
      { source := "if a:\n b\n c\n".toUTF8
        nodes := #[⟨none, "module", 0, 12⟩, ⟨some 0, "if_statement", 0, 11⟩, ⟨some 1, "if", 0, 2⟩,
          ⟨some 1, "identifier", 3, 4⟩, ⟨some 1, ":", 4, 5⟩, ⟨some 1, "block", 7, 11⟩,
          ⟨some 5, "identifier", 7, 8⟩, ⟨some 5, "identifier", 10, 11⟩] }
    captures :=
      [("python.scm:1", [⟨0, 0, "root"⟩, ⟨0, 1, "child.first"⟩, ⟨0, 1, "definition.module"⟩]),
       ("python.scm:16", [⟨1, 1, "root"⟩, ⟨1, 1, "definition.compound"⟩, ⟨1, 6, "child.first"⟩,
         ⟨1, 6, "child.last"⟩])] }

/-- The second statement is a block of its own, right below the module. -/
theorem parse_lossless_earlyStop :
    ∃ module, parse earlyStop = .ok module
      ∧ (module.root.descendants.map fun b => (b.info.path, b.info.gap, b.info.content))
        = [(["if_a_"], "", "if a:"), (["if_a_", "b"], "\n ", "b"), (["c"], "\n ", "c"), ([], "\n", "")]
      ∧ Source.encode (sourceText module.root.descendants)
        = .ok (Source.slice earlyStop.tree.source 0 12) := by
  have ht : earlyStop.tree.Tiled := tiled_of_isTiled (by decide +kernel)
  have hfaithful : Faithful earlyStop.tree earlyStop.captures earlyStop.dialect.queries :=
    faithful_of_isFaithful (by decide +kernel)
  have hopens : OpensAtFirstChild earlyStop := by
    have hfirst : ((Meaning.ofNode earlyStop.tree earlyStop.captures earlyStop.dialect
        earlyStop.tweaked 0).toOption.bind fun m => m.firstChild) = some 1 := by decide +kernel
    unfold OpensAtFirstChild
    cases hm : Meaning.ofNode earlyStop.tree earlyStop.captures earlyStop.dialect
        earlyStop.tweaked 0 with
    | error e =>
      rw [hm] at hfirst
      exact absurd hfirst (by simp [Except.toOption])
    | ok m =>
      rw [hm] at hfirst
      exact ⟨m, 1, rfl, hfirst, by decide +kernel⟩
  have hblocks : ((parse earlyStop).toOption.map fun module =>
      module.root.descendants.map fun b => (b.info.path, b.info.gap, b.info.content))
      = some [(["if_a_"], "", "if a:"), (["if_a_", "b"], "\n ", "b"), (["c"], "\n ", "c"),
        ([], "\n", "")] := by decide +kernel
  cases hmodule : parse earlyStop with
  | error e =>
    rw [hmodule] at hblocks
    cases hblocks
  | ok module =>
    rw [hmodule] at hblocks
    exact ⟨module, rfl, Option.some.inj hblocks,
      parse_lossless earlyStop module ht hfaithful rfl hopens hmodule⟩

end Parse

end CodeAtlas

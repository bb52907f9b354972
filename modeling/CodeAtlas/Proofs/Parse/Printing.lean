import CodeAtlas.Block.Render
import CodeAtlas.Proofs.Parse.Lossless
import CodeAtlas.Proofs.Parse.Numbering
import Mathlib.Data.List.DropRight

/-!
# What a module prints

A block is printed from what was measured of its gap, the number of line breaks and the indentation
behind them, and from its lines.  So of a gap with line breaks only these are printed, and what stands
behind the last of them: blanks at the end of a line, carriage returns and backslashes are lost.  Two
things are added to this: an indentation is left out in front of an empty line, and an assignment whose
right side begins on a later row gets a backslash.  Where the backslash that an assignment gets is the
one that the next gap loses, the text is that of the source again.

Main results:
  * `Gap.length_lines`, `Gap.getLastD_lines`: what is measured of a gap;
  * `BlockData.ownText_shown`: what a block prints of its own;
  * `Parse.join_shown`: when the blocks print what they were made of;
  * `Parse.parse_text`: what a module prints.
-/

namespace CodeAtlas

/-! ## §1. Lines. -/

namespace Text

/-- The first line of a text. -/
def firstLine (s : String) : String :=
  (lines s).headD ""

/-- The text from its first line break on. -/
def furtherLines (s : String) : String :=
  String.join ((lines s).tail.map fun line => "\n" ++ line)

theorem lines_ne_nil (s : String) : lines s ≠ [] := by
  unfold lines split
  simp [List.splitOn_ne_nil]

theorem lines_eq_cons (s : String) : lines s = firstLine s :: (lines s).tail := by
  obtain ⟨first, rest, hlines⟩ := List.exists_cons_of_ne_nil (lines_ne_nil s)
  rw [firstLine, hlines]
  rfl

theorem toList_join (pieces : List String) :
    (String.join pieces).toList = (pieces.map String.toList).flatten := by
  induction pieces with
  | nil => rfl
  | cons x xs ih => rw [String.join_cons, String.toList_append, ih]; rfl

theorem intercalate_cons (sep x : List Char) (xs : List (List Char)) :
    sep.intercalate (x :: xs) = x ++ (xs.map fun y => sep ++ y).flatten := by
  induction xs generalizing x with
  | nil => simp
  | cons y ys ih => rw [List.intercalate_cons_cons, ih]; simp

/-- A text is its first line and what follows. -/
theorem firstLine_append (s : String) : firstLine s ++ furtherLines s = s := by
  apply String.toList_injective
  have hjoined : ['\n'].intercalate (s.toList.splitOn '\n') = s.toList := List.intercalate_splitOn '\n'
  obtain ⟨first, rest, hsplit⟩ := List.exists_cons_of_ne_nil (List.splitOn_ne_nil '\n' s.toList)
  rw [hsplit, intercalate_cons] at hjoined
  rw [String.toList_append, firstLine, furtherLines, lines, split, hsplit, toList_join, ← hjoined]
  simp [List.map_map, Function.comp_def]

end Text

/-! ## §2. Gaps. -/

namespace Gap

/-- The number of line breaks of a gap. -/
def breakCount (gap : String) : Nat :=
  gap.toList.count '\n'

/-- What a gap has behind its last line break; all of it, if there is none. -/
def lastLine (gap : String) : String :=
  String.ofList (gap.toList.rtakeWhile (· ≠ '\n'))

/-- What is measured as the number of line breaks. -/
theorem length_lines (gap : String) : (Text.lines gap).length = breakCount gap + 1 := by
  have hsplit : ∀ cs : List Char, (cs.splitOn '\n').length = cs.count '\n' + 1 := by
    intro cs
    induction cs with
    | nil => rfl
    | cons c cs ih =>
      rw [List.splitOn_cons_eq_if_modifyHead, List.count_cons]
      split
      · rw [List.length_cons, ih]
      · rw [List.length_modifyHead, ih]
  rw [Text.lines, Text.split, List.length_map, hsplit]
  rfl

theorem lastLine_eq_self {gap : String} (h : breakCount gap = 0) : lastLine gap = gap := by
  have hnone : '\n' ∉ gap.toList := List.count_eq_zero.mp h
  have hall : gap.toList.rtakeWhile (· ≠ '\n') = gap.toList := by
    rw [List.rtakeWhile_eq_self_iff]
    intro c hc
    simpa using fun heq : c = '\n' => hnone (heq ▸ hc)
  rw [lastLine, hall, String.ofList_toList]

/-- What is measured as the indentation behind them. -/
theorem getLastD_lines (gap : String) : (Text.lines gap).getLastD "" = lastLine gap := by
  unfold Text.lines Text.split
  by_cases hbreak : '\n' ∈ gap.toList
  · -- the first line break from the back
    obtain ⟨last, front, hback, hlast⟩ := List.eq_append_cons_of_mem (List.mem_reverse.mpr hbreak)
    have hnone : '\n' ∉ last.reverse := by
      rw [List.mem_reverse]
      exact hlast
    have hgap : gap.toList = front.reverse ++ '\n' :: last.reverse := by
      rw [← gap.toList.reverse_reverse, hback]
      simp
    have hall : last.takeWhile (· ≠ '\n') = last := by
      rw [List.takeWhile_eq_self_iff]
      intro c hc
      simpa using fun heq : c = '\n' => hlast (heq ▸ hc)
    have hbehind : gap.toList.rtakeWhile (· ≠ '\n') = last.reverse := by
      rw [List.rtakeWhile, hback, List.takeWhile_append, hall, if_pos rfl,
        List.takeWhile_cons_of_neg (by simp), List.append_nil]
    rw [lastLine, hbehind, hgap, List.splitOn_append_cons_self, List.splitOn_eq_singleton hnone,
      List.map_append, List.map_singleton, List.getLastD_concat]
  · rw [List.splitOn_eq_singleton hbreak, List.map_singleton, String.ofList_toList,
      lastLine_eq_self (List.count_eq_zero.mpr hbreak)]
    rfl

theorem replicate_succ (n : Nat) (s : String) :
    Text.replicate ((n + 1 : Nat) : Int) s = Text.replicate (n : Int) s ++ s := by
  unfold Text.replicate
  rw [Int.toNat_natCast, Int.toNat_natCast, List.replicate_succ', String.join_append]
  simp [String.join_cons]

theorem toList_replicate (n : Nat) :
    (Text.replicate (n : Int) "\n").toList = List.replicate n '\n' := by
  induction n with
  | zero => rfl
  | succ n ih => rw [replicate_succ, String.toList_append, ih, List.replicate_succ']; rfl

end Gap

/-! ## §3. What a block prints of its own. -/

namespace BlockData

variable {d made : BlockData}

/-- A gap is measured by its line breaks and what follows the last of them. -/
theorem make_measured (h : d.make = .ok made) (hindentation : d.indentation = "")
    (hgapLines : d.gapLines = 0) :
    made.gapLines = (Gap.breakCount d.gap : Nat) ∧ made.indentation = Gap.lastLine d.gap
    ∧ made.lines = Text.lines d.content := by
  unfold make at h
  split at h
  · rw [← Except.ok.inj h]
    by_cases hgap : d.gap = ""
    · rw [if_neg (by simp [hgap]), hgap, Gap.lastLine_eq_self rfl]
      exact ⟨hgapLines, hindentation, rfl⟩
    · rw [if_pos ⟨hgap, hindentation, hgapLines⟩]
      unfold measureGap
      dsimp only
      rw [Gap.length_lines, Nat.add_sub_cancel]
      refine ⟨rfl, ?_, rfl⟩
      split
      · rename_i hnone
        exact (Gap.lastLine_eq_self hnone).symm
      · exact Gap.getLastD_lines d.gap
  · cases h

/-- What a block prints of its gap: as many line breaks as the gap has, and what stands behind the
last of them.  On a line of its own, an empty first line is not indented. -/
def shownGap (d : BlockData) : String :=
  Text.replicate (Gap.breakCount d.gap : Nat) "\n"
    ++ if Gap.breakCount d.gap ≠ 0 ∧ Text.firstLine d.content = "" then "" else Gap.lastLine d.gap

/-- The mark behind the first line of a block on a line of its own, if it is to be continued. -/
def continuation (continued : Bool) (d : BlockData) : String :=
  if Gap.breakCount d.gap ≠ 0 ∧ continued then " \\" else ""

/-- What a block prints of its own. -/
def shown (continued : Bool) (d : BlockData) : String :=
  d.shownGap ++ Text.firstLine d.content ++ d.continuation continued ++ Text.furtherLines d.content

/-- The lines of a block, the first of them continued or not. -/
def shownLines (continued : Bool) (content : String) : List String :=
  (if continued then Text.firstLine content ++ " \\" else Text.firstLine content)
    :: (Text.lines content).tail

/-- A block on a line of its own: line breaks, the indentation unless the first line is empty, and
its lines. -/
theorem ownText_broken {n : Nat} {first : String} {rest : List String}
    (hgapLines : d.gapLines = (n + 1 : Nat)) (hlines : d.lines = first :: rest) :
    d.ownText = Text.replicate (n + 1 : Nat) "\n"
      ++ ((if first = "" then "" else d.indentation ++ first)
        ++ String.join (rest.map fun line => "\n" ++ line)) := by
  unfold ownText
  rw [hgapLines, hlines, if_neg (by omega), show ((n + 1 : Nat) : Int) - 1 = (n : Int) by omega,
    Gap.replicate_succ, brokenLines]
  split
  · rw [String.empty_append, String.append_assoc]
  · rw [String.append_assoc, String.append_assoc, String.append_assoc, String.append_assoc]

theorem ownText_shown (continued : Bool) (hgapLines : d.gapLines = (Gap.breakCount d.gap : Nat))
    (hindentation : d.indentation = Gap.lastLine d.gap)
    (hlines : d.lines = shownLines continued d.content)
    (hcontinued : continued = true → Text.firstLine d.content ≠ "") :
    d.ownText = d.shown continued := by
  unfold shown shownGap continuation
  have hwhole : Gap.breakCount d.gap = 0 → Gap.lastLine d.gap = d.gap := Gap.lastLine_eq_self
  have hcontent := Text.firstLine_append d.content
  generalize Gap.breakCount d.gap = count at hgapLines hwhole ⊢
  cases count with
  | zero =>
    rw [if_neg (by simp), if_neg (by simp), String.append_empty, String.append_assoc, hcontent,
      hwhole rfl]
    unfold ownText
    rw [hgapLines]
    exact congrArg (· ++ d.content) String.empty_append.symm
  | succ n =>
    rw [ownText_broken hgapLines hlines, hindentation]
    show _ ++ (_ ++ Text.furtherLines d.content) = _
    by_cases hempty : Text.firstLine d.content = ""
    · have hnot : continued = false := by
        cases continued with
        | false => rfl
        | true => exact absurd hempty (hcontinued rfl)
      rw [hnot, if_pos (by simpa using hempty), if_pos ⟨by omega, hempty⟩, if_neg (by simp), hempty]
      simp only [String.append_empty, String.empty_append]
    · rw [if_neg (fun h : _ ∧ _ => hempty h.2)]
      cases continued with
      | false =>
        rw [if_neg (by simpa using hempty), if_neg (by simp)]
        simp [String.append_assoc]
      | true =>
        rw [if_neg (by simp), if_pos rfl, if_pos ⟨by omega, rfl⟩]
        simp [String.append_assoc]

/-- A block prints what it was made of. -/
theorem ownText_make (h : d.make = .ok made) (hindentation : d.indentation = "")
    (hgapLines : d.gapLines = 0) : made.ownText = d.shown false := by
  obtain ⟨hbreaks, hindent, hlines⟩ := make_measured h hindentation hgapLines
  obtain ⟨hgap, hcontent⟩ := make_ok h
  have hshown : made.shown false = d.shown false := by
    simp only [shown, shownGap, continuation, hgap, hcontent]
  rw [← hgap] at hbreaks hindent
  rw [← hcontent, Text.lines_eq_cons] at hlines
  rw [← hshown]
  exact ownText_shown false hbreaks hindent hlines (by simp)

end BlockData

/-! ## §4. What a module prints. -/

namespace Parse

open Block

variable {s : Setting} {p q : Progress}

/-- Is the first line of a block, made of the given node, to be continued?  That is so for an
assignment whose first line ends with the equals sign, and whose right side begins on a later row. -/
def continuesAt (s : Setting) (node : Nat) (d : BlockData) : Bool :=
  s.dialect.refines && decide (d.kind = .assignment)
    && Text.endsWith "=" (Text.trim (Text.firstLine d.content))
    && (Meaning.ofNode s.tree s.captures s.dialect s.tweaked node).toOption.any (isBroken s)

/-- A first line that is to be continued is not empty. -/
theorem firstLine_ne_empty {node : Nat} {d : BlockData} (h : continuesAt s node d = true) :
    Text.firstLine d.content ≠ "" := by
  intro hempty
  unfold continuesAt at h
  rw [hempty] at h
  simp only [Bool.and_eq_true] at h
  exact absurd h.1.2 (by decide)

theorem commentKind_assignment (kind : BlockKind) (content : String) :
    Refine.commentKind kind content = .assignment ↔ kind = .assignment := by
  unfold Refine.commentKind
  split
  · rename_i hcomment
    simp only [Bool.and_eq_true, decide_eq_true_eq] at hcomment
    simp [hcomment.1]
  · exact Iff.rfl

theorem bodyKind_assignment (kind : BlockKind) (children : List Block) :
    Refine.bodyKind kind children = .assignment ↔ kind = .assignment := by
  unfold Refine.bodyKind
  split
  · split
    · rename_i hbody
      simp only [Bool.and_eq_true, Bool.or_eq_true, decide_eq_true_eq] at hbody
      rcases hbody.1 with rfl | rfl
      · simp
      · simp
    · exact Iff.rfl
  · exact Iff.rfl

/-- Finishing a block makes no assignment of it, nor anything else of an assignment. -/
theorem finish_assignment {above : List OpenBlock} {d final : BlockData} {id : Nat}
    {children refined : List Block} (h : finish s above d id children p = .ok ((final, refined), q)) :
    final.kind = .assignment ↔ d.kind = .assignment := by
  unfold finish at h
  split at h
  · rw [get_bind_ok, modify_if] at h
    obtain ⟨heq, -⟩ := pure_ok.mp h
    obtain ⟨rfl, -⟩ := Prod.mk.inj heq
    show Refine.bodyKind (Refine.commentKind d.kind d.content) children = .assignment ↔ _
    rw [bodyKind_assignment, commentKind_assignment]
  · obtain ⟨heq, -⟩ := pure_ok.mp h
    obtain ⟨rfl, -⟩ := Prod.mk.inj heq
    exact Iff.rfl

/-- What a node makes is not measured yet. -/
theorem blockData_unmeasured {m : Meaning} {node : Nat} {start : Int} {raw : BlockData}
    (h : blockData s m node start = .ok raw) : raw.indentation = "" ∧ raw.gapLines = 0 := by
  unfold blockData at h
  simp only [Outcome.bind_ok] at h
  obtain ⟨gap, -, content, -, name, -, references, -, parameters, -, hraw⟩ := h
  rw [← Except.ok.inj hraw]
  exact ⟨rfl, rfl⟩

/-- The lines of a block below the module: those of its content, the first perhaps continued. -/
theorem namedData_lines {m : Meaning} {siblings : List (BlockKind × Option String)}
    {raw d : BlockData} (h : namedData s m siblings raw = .ok d) (hindentation : raw.indentation = "")
    (hgapLines : raw.gapLines = 0) :
    d.gapLines = (Gap.breakCount raw.gap : Nat) ∧ d.indentation = Gap.lastLine raw.gap
    ∧ d.lines = BlockData.shownLines (s.dialect.refines && decide (d.kind = .assignment)
        && Text.endsWith "=" (Text.trim (Text.firstLine raw.content)) && isBroken s m)
      raw.content := by
  unfold namedData at h
  rw [Outcome.bind_ok] at h
  obtain ⟨made, hmade, hd⟩ := h
  obtain ⟨hlines, hindent, hcontent⟩ := BlockData.make_measured hmade hindentation hgapLines
  rw [← Except.ok.inj hd]
  refine ⟨hlines, hindent, ?_⟩
  dsimp only
  rw [hcontent, Text.lines_eq_cons, BlockData.shownLines]
  cases s.dialect.refines with
  | false => rfl
  | true =>
    rw [if_pos rfl, if_pos rfl, Refine.continueLine, Bool.true_and, Bool.and_right_comm]
    split <;> rfl

/-- What a block prints of its own, by the node that it was made of. -/
def Prints (s : Setting) (node : Nat) (info : BlockInfo) : Prop :=
  info.ownText = info.toBlockData.shown (continuesAt s node info.toBlockData)

theorem represents_prints (s : Setting) : Represents s (Prints s) := by
  constructor
  · intro m node start raw siblings d above spanIds id children p final refined q path hm hraw hd
      hfinish
    have hkind := finish_assignment hfinish
    obtain ⟨⟨kind, relationships, rfl⟩, -⟩ := finish_changes hfinish
    obtain ⟨kind', name, gapLines, indentation, lines, hd'⟩ := namedData_changes hd
    have hgap : d.gap = raw.gap := by rw [hd']
    have hcontent : d.content = raw.content := by rw [hd']
    obtain ⟨hindentation, hgapLines⟩ := blockData_unmeasured hraw
    obtain ⟨hbreaks, hindent, hlines⟩ := namedData_lines hd hindentation hgapLines
    rw [← hgap] at hbreaks hindent
    rw [← hcontent] at hlines
    -- the block is an assignment from the first, and broken as its node is
    have hcontinued : continuesAt s node { d with kind, relationships, spanIds }
        = (s.dialect.refines && decide (d.kind = .assignment)
          && Text.endsWith "=" (Text.trim (Text.firstLine d.content)) && isBroken s m) := by
      have hsame : decide (kind = .assignment) = decide (d.kind = .assignment) :=
        decide_eq_decide.mpr hkind
      unfold continuesAt
      rw [hm, hsame]
      rfl
    refine BlockData.ownText_shown _ hbreaks hindent ?_ firstLine_ne_empty
    rw [hcontinued]
    exact hlines
  · intro node info errors hprints
    exact hprints

/-- A module prints nothing of its own. -/
theorem readRoot_ownText {root : Block} (h : readRoot s p = .ok (root, q)) :
    root.info.ownText = "" := by
  obtain ⟨m, raw, d, below, last, spanIds, final, children, p₁, p₂, -, -, hd, -, hfinish, -, hend⟩ :=
    readRoot_ok h
  have hfinal : final.ownText = "" := by
    have hmade := BlockData.ownText_make hd rfl rfl
    obtain ⟨⟨kind, relationships, rfl⟩, -⟩ := finish_changes hfinish
    exact hmade
  rcases hend with ⟨-, gap, space, -, -, rfl⟩ | ⟨-, rfl⟩
  · exact hfinal
  · exact hfinal

/-- Is the first line of a block of a module to be continued? -/
def continues (s : Setting) (module : Module) (b : Block) : Bool :=
  (module.visited[b.info.id]?).any fun node => continuesAt s node b.info.toBlockData

/-- Each block of a module prints of its own what it should. -/
theorem ownText_parse {module : Module} (h : parse s = .ok module) {b : Block}
    (hb : b ∈ module.root.descendants) :
    b.info.ownText = b.info.toBlockData.shown (continues s module b) := by
  obtain ⟨root, p, hroot, rfl⟩ := parse_ok h
  obtain ⟨made, trailing, hsplit, hnumbered, -, htrailing⟩ :=
    readRoot_numbered (represents_prints s) hroot
  -- the block as it was read
  have hmem : b.info ∈ root.descendants.map fun b =>
      { b.info with span := p.ledger.spanOfBlock b.info.id } := by
    rw [← infos_descendants_assignSpans]
    exact List.mem_map_of_mem hb
  obtain ⟨b₀, hb₀, hinfo⟩ := List.mem_map.mp hmem
  unfold continues
  rw [← hinfo]
  rw [hsplit] at hb₀
  show b₀.info.ownText = b₀.info.toBlockData.shown
    ((p.visited[b₀.info.id]?).any fun node => continuesAt s node b₀.info.toBlockData)
  rcases List.mem_append.mp hb₀ with hmade | hlast
  · obtain ⟨node, hnode, hprints⟩ := hnumbered.node_of hmade
    rw [hnode]
    exact hprints
  · rcases htrailing with rfl | ⟨raw, gap, space, hspace, rfl⟩
    · exact absurd hlast (by simp)
    · -- the blanks at the end stand for no node
      obtain ⟨hgap, hcontent⟩ := BlockData.make_ok hspace
      rw [List.mem_singleton.mp hlast]
      dsimp only
      rw [List.getElem?_eq_none (Nat.le_refl _), Option.any_none,
        BlockData.ownText_make hspace rfl rfl]
      simp only [BlockData.shown, BlockData.shownGap, BlockData.continuation, hgap, hcontent]

/-- The mark with which a block of a module continues its first line. -/
def continuationOf (s : Setting) (module : Module) (b : Block) : String :=
  b.info.toBlockData.continuation (continues s module b)

/-- Do blocks in a row print what they were made of?  The block in front of them has printed `lead`
behind its text.  This has to be the beginning of the next gap, and the rest of the gap has to be what
is printed of it; and a line can only be continued where nothing else of the block follows. -/
def Restores (s : Setting) (module : Module) : String → List Block → Prop
  | lead, [] => lead = ""
  | lead, b :: rest =>
    b.info.gap = lead ++ b.info.toBlockData.shownGap
      ∧ (continuationOf s module b = "" ∨ Text.furtherLines b.info.content = "")
      ∧ Restores s module (continuationOf s module b) rest

instance decidableRestores (s : Setting) (module : Module) :
    ∀ lead blocks, Decidable (Restores s module lead blocks)
  | lead, [] => inferInstanceAs (Decidable (lead = ""))
  | _, b :: rest =>
    have := decidableRestores s module (continuationOf s module b) rest
    inferInstanceAs (Decidable (_ ∧ _ ∧ _))

theorem join_shown {module : Module} {blocks : List Block} {lead : String}
    (h : Restores s module lead blocks) :
    lead ++ String.join (blocks.map fun b => b.info.toBlockData.shown (continues s module b))
      = sourceText blocks := by
  induction blocks generalizing lead with
  | nil =>
    rw [show lead = "" from h]
    rfl
  | cons b rest ih =>
    obtain ⟨hgap, hlines, hrest⟩ := h
    have hcontent := Text.firstLine_append b.info.content
    -- what continues the line moves behind the content, to the texts of the other blocks
    have hmoved : continuationOf s module b ++ Text.furtherLines b.info.content
        = Text.furtherLines b.info.content ++ continuationOf s module b := by
      rcases hlines with hnone | hnone
      · rw [hnone, String.empty_append, String.append_empty]
      · rw [hnone, String.empty_append, String.append_empty]
    have hblock : lead ++ b.info.toBlockData.shown (continues s module b)
        = b.info.gap ++ b.info.content ++ continuationOf s module b := by
      calc lead ++ b.info.toBlockData.shown (continues s module b)
          = lead ++ b.info.toBlockData.shownGap ++ Text.firstLine b.info.content
              ++ (continuationOf s module b ++ Text.furtherLines b.info.content) := by
            simp only [BlockData.shown, continuationOf, String.append_assoc]
        _ = b.info.gap ++ (Text.firstLine b.info.content ++ Text.furtherLines b.info.content)
              ++ continuationOf s module b := by
            rw [← hgap, hmoved]
            simp only [String.append_assoc]
        _ = b.info.gap ++ b.info.content ++ continuationOf s module b := by rw [hcontent]
    rw [List.map_cons, String.join_cons, ← String.append_assoc, hblock, String.append_assoc, ih hrest]
    rw [sourceText, sourceText, List.map_cons, String.join_cons]

/-- **What a module prints.**  The text of a module is what its blocks show, in document order: of each
gap as many line breaks as it has and what stands behind the last of them, without an indentation in
front of an empty line, and the content, with a backslash behind a first line that is to be continued.
If in this way each block restores what it was made of, the text is the gap and the content of each. -/
theorem parse_text (s : Setting) (module : Module) (h : parse s = .ok module) :
    module.root.text = String.join (module.root.descendants.map fun b =>
        b.info.toBlockData.shown (continues s module b))
    ∧ (Restores s module "" module.root.descendants →
        module.root.text = sourceText module.root.descendants) := by
  have hshown : module.root.text = String.join (module.root.descendants.map fun b =>
      b.info.toBlockData.shown (continues s module b)) := by
    have hroot : module.root.info.ownText = "" := by
      obtain ⟨root, p, hread, rfl⟩ := parse_ok h
      have hroot := readRoot_ownText hread
      obtain ⟨info, children⟩ := root
      exact hroot
    rw [Block.text, preorder_eq, List.map_cons, String.join_cons, hroot, String.empty_append]
    congr 1
    apply List.map_congr_left
    intro b hb
    exact ownText_parse h hb
  refine ⟨hshown, ?_⟩
  intro hrestores
  rw [hshown, ← join_shown hrestores, String.empty_append]

/-- What the queries find in a statement and an assignment behind it. -/
def assignmentCaptures : CaptureTable :=
  [("python.scm:1", [⟨0, 0, "root"⟩, ⟨0, 1, "child.first"⟩, ⟨0, 1, "definition.module"⟩]),
   ("python.scm:14", [⟨2, 2, "root"⟩, ⟨2, 3, "check_child"⟩]),
   ("python.scm:11", [⟨3, 3, "root"⟩, ⟨3, 3, "definition.assignment"⟩, ⟨3, 4, "identifier"⟩,
     ⟨3, 6, "child.first"⟩])]

/-- An assignment whose right side stands on a row of its own, behind a backslash. -/
def continuedAssignment : Setting :=
  { tree :=
      { source := "a\nx = \\\n  1\n".toUTF8
        nodes := #[⟨none, "module", 0, 12⟩, ⟨some 0, "identifier", 0, 1⟩,
          ⟨some 0, "expression_statement", 2, 11⟩, ⟨some 2, "assignment", 2, 11⟩,
          ⟨some 3, "identifier", 2, 3⟩, ⟨some 3, "=", 4, 5⟩, ⟨some 3, "integer", 10, 11⟩] }
    captures := assignmentCaptures }

/-- The backslash is lost from the gap of the right side, and the assignment gets it back. -/
theorem parse_text_continuedAssignment :
    ∃ module, parse continuedAssignment = .ok module
      ∧ (module.root.descendants.map fun b => (b.info.gap, b.info.toBlockData.shownGap))
        = [("", ""), ("\n", "\n"), (" \\\n  ", "\n  "), ("\n", "\n")]
      ∧ (module.root.descendants.map fun b => continuationOf continuedAssignment module b)
        = ["", " \\", "", ""]
      ∧ Restores continuedAssignment module "" module.root.descendants
      ∧ module.root.text = sourceText module.root.descendants := by
  have hchecked : ((parse continuedAssignment).toOption.map fun module =>
      (module.root.descendants.map fun b => (b.info.gap, b.info.toBlockData.shownGap),
        module.root.descendants.map fun b => continuationOf continuedAssignment module b,
        decide (Restores continuedAssignment module "" module.root.descendants)))
      = some ([("", ""), ("\n", "\n"), (" \\\n  ", "\n  "), ("\n", "\n")], ["", " \\", "", ""],
        true) := by decide +kernel
  cases hmodule : parse continuedAssignment with
  | error e =>
    rw [hmodule] at hchecked
    cases hchecked
  | ok module =>
    rw [hmodule] at hchecked
    obtain ⟨hgaps, hrest⟩ := Prod.mk.inj (Option.some.inj hchecked)
    obtain ⟨hmarks, hrestores⟩ := Prod.mk.inj hrest
    have hrestores := of_decide_eq_true hrestores
    exact ⟨module, rfl, hgaps, hmarks, hrestores,
      (parse_text continuedAssignment module hmodule).2 hrestores⟩

/-- The same with a blank at the end of the first row, no blank in front of the backslash, and blanks
at the end. -/
def looseLayout : Setting :=
  { tree :=
      { source := "a \nx =\\\n  1\n  ".toUTF8
        nodes := #[⟨none, "module", 0, 14⟩, ⟨some 0, "identifier", 0, 1⟩,
          ⟨some 0, "expression_statement", 3, 11⟩, ⟨some 2, "assignment", 3, 11⟩,
          ⟨some 3, "identifier", 3, 4⟩, ⟨some 3, "=", 5, 6⟩, ⟨some 3, "integer", 10, 11⟩] }
    captures := assignmentCaptures }

/-- The blanks at the ends of rows are lost, and the backslash gets a blank. -/
theorem text_ne_sourceText_looseLayout :
    ∃ module, parse looseLayout = .ok module
      ∧ module.root.text = "a\nx = \\\n  1\n"
      ∧ sourceText module.root.descendants = "a \nx =\\\n  1\n  "
      ∧ module.root.text ≠ sourceText module.root.descendants := by
  have hchecked : ((parse looseLayout).toOption.map fun module =>
      (module.root.text, sourceText module.root.descendants))
      = some ("a\nx = \\\n  1\n", "a \nx =\\\n  1\n  ") := by decide +kernel
  cases hmodule : parse looseLayout with
  | error e =>
    rw [hmodule] at hchecked
    cases hchecked
  | ok module =>
    rw [hmodule] at hchecked
    obtain ⟨htext, hsource⟩ := Prod.mk.inj (Option.some.inj hchecked)
    refine ⟨module, rfl, htext, hsource, ?_⟩
    intro heq
    rw [htext, hsource] at heq
    exact absurd heq (by decide)

end Parse

end CodeAtlas

import CodeAtlas.Proofs.Block.Preorder
import CodeAtlas.Proofs.Parse.Printing

/-!
# Two views of the source

A tree of blocks is shown as text in two ways.  One writes each block after its gap, and leaves out
the indentation in front of an empty first line; the other one writes the blocks below a block with
their line breaks and indentation, and can leave out some of them.  With nothing left out, the second
view is the first one for blocks that are measured when they are made, up to these indentations.

Main results:
  * `Text.join_map_eq_iff`: two rows of texts, one of them of longer texts;
  * `Block.ownPrompt_eq_iff`: the two views of one block;
  * `Block.promptFrom_showsAll`: a view with nothing left out;
  * `Block.prompt_eq_text_iff`: when the two views of a tree agree.
-/

namespace CodeAtlas

/-! ## §1. Texts in a row. -/

namespace Text

variable {α : Type} {f g : α → String} {xs : List α}

theorem length_join_map_le (h : ∀ x ∈ xs, (g x).length ≤ (f x).length) :
    (String.join (xs.map g)).length ≤ (String.join (xs.map f)).length := by
  induction xs with
  | nil => simp
  | cons x xs ih =>
    rw [List.forall_mem_cons] at h
    have hrest := ih h.2
    rw [List.map_cons, List.map_cons, String.join_cons, String.join_cons, String.length_append,
      String.length_append]
    omega

/-- If no text of the first row is shorter than that of the second one in its place, the two rows give
the same text only if they are the same. -/
theorem join_map_eq_iff (h : ∀ x ∈ xs, (g x).length ≤ (f x).length) :
    String.join (xs.map f) = String.join (xs.map g) ↔ ∀ x ∈ xs, f x = g x := by
  induction xs with
  | nil => simp
  | cons x xs ih =>
    rw [List.forall_mem_cons] at h
    have hrest := length_join_map_le h.2
    rw [List.map_cons, List.map_cons, String.join_cons, String.join_cons, List.forall_mem_cons,
      ← ih h.2]
    constructor
    · intro heq
      -- neither part of the first text is the shorter one, so that both are cut at the same place
      have hlength : (f x).length = (g x).length := by
        have htotal := congrArg String.length heq
        rw [String.length_append, String.length_append] at htotal
        have hfirst := h.1
        omega
      have hchars := congrArg String.toList heq
      rw [String.toList_append, String.toList_append] at hchars
      obtain ⟨hfirst, hlater⟩ := List.append_inj hchars (by
        rw [String.length_toList, String.length_toList, hlength])
      exact ⟨String.toList_injective hfirst, String.toList_injective hlater⟩
    · intro heq
      rw [heq.1, heq.2]

end Text

/-! ## §2. The two views of one block. -/

namespace BlockData

/-- The block was made of its gap and its content: nothing else was said about its line breaks and its
indentation. -/
def IsMade (m : BlockData) : Prop :=
  ∃ d : BlockData, d.indentation = "" ∧ d.gapLines = 0 ∧ d.make = .ok m

/-- What is measured of such a block: without a line break in the gap the whole gap is the
indentation, and the lines are those of the content. -/
theorem IsMade.measured {m : BlockData} (h : m.IsMade) :
    0 ≤ m.gapLines ∧ (m.gapLines = 0 → m.indentation = m.gap) ∧ m.lines = Text.lines m.content := by
  obtain ⟨d, hindentation, hgapLines, hmake⟩ := h
  unfold make at hmake
  split at hmake
  · rw [← Except.ok.inj hmake]
    by_cases hgap : d.gap = ""
    · rw [if_neg (by simp [hgap])]
      dsimp only
      refine ⟨by omega, ?_, rfl⟩
      intro _
      rw [hindentation, hgap]
    · rw [if_pos ⟨hgap, hindentation, hgapLines⟩]
      unfold measureGap
      dsimp only
      refine ⟨by omega, ?_, rfl⟩
      intro hbreaks
      rw [if_pos (by omega)]
  · cases hmake

end BlockData

namespace Block

open BlockData

theorem lineBreak_unnumbered (line : Int) : "\n" ++ lineMark false line = "\n" :=
  String.append_empty

theorem brokenGap_unnumbered (d : BlockData) :
    brokenGap false d = Text.replicate d.gapLines "\n" := by
  unfold brokenGap Text.replicate
  simp only [lineBreak_unnumbered]
  rw [List.map_const', List.length_range]

theorem furtherLines_unnumbered (d : BlockData) :
    furtherLines false d = String.join (d.lines.tail.map fun line => "\n" ++ line) := by
  unfold furtherLines
  simp only [lineBreak_unnumbered]
  rw [show (fun x : String × Nat => "\n" ++ x.1) = (fun line => "\n" ++ line) ∘ Prod.fst from rfl,
    ← List.map_map, List.zipIdx_map_fst]

/-- A block in a view without numbers: its line breaks, its indentation and its lines. -/
theorem ownPrompt_unnumbered (opens : Bool) (d : BlockData) :
    ownPrompt opens false "" d = Text.replicate d.gapLines "\n"
      ++ (d.indentation ++ d.lines.headD ""
        ++ String.join (d.lines.tail.map fun line => "\n" ++ line)) := by
  have hmark : (if opens then lineMark false d.startLine else "") = "" := by
    cases opens with
    | false => rfl
    | true => rfl
  unfold ownPrompt
  rw [hmark, brokenGap_unnumbered, furtherLines_unnumbered, String.empty_append, String.empty_append]
  simp only [String.append_assoc]

/-- The block's own text is that of the other view, without the indentation where it is left out. -/
theorem ownText_made {m : BlockData} (h : m.IsMade) :
    m.ownText = Text.replicate m.gapLines "\n"
      ++ ((if 0 < m.gapLines ∧ m.lines.headD "" = "" then "" else m.indentation)
        ++ m.lines.headD "" ++ String.join (m.lines.tail.map fun line => "\n" ++ line)) := by
  obtain ⟨hpositive, hgap, hlines⟩ := h.measured
  by_cases hbreaks : m.gapLines = 0
  · -- without a line break the gap is the indentation, and the lines give the content
    have hcontent := Text.firstLine_append m.content
    unfold Text.firstLine Text.furtherLines at hcontent
    unfold ownText
    rw [if_pos hbreaks, if_neg (by omega), hgap hbreaks, hlines, String.append_assoc, hcontent,
      hbreaks]
    exact String.empty_append.symm
  · obtain ⟨n, hn⟩ : ∃ n : Nat, m.gapLines = (n + 1 : Nat) := ⟨(m.gapLines - 1).toNat, by omega⟩
    rw [Text.lines_eq_cons] at hlines
    rw [ownText_broken hn hlines, hn, hlines, List.headD_cons, List.tail_cons]
    by_cases hempty : Text.firstLine m.content = ""
    · rw [if_pos hempty, if_pos ⟨by omega, hempty⟩, hempty, String.append_empty]
    · rw [if_neg hempty, if_neg (fun hboth => hempty hboth.2)]

/-- The view that leaves nothing out is not the shorter one. -/
theorem length_ownText_le {m : BlockData} (h : m.IsMade) (opens : Bool) :
    m.ownText.length ≤ (ownPrompt opens false "" m).length := by
  rw [ownText_made h, ownPrompt_unnumbered]
  simp only [String.length_append]
  split
  · rw [String.length_empty]
    omega
  · omega

/-- **The two views of one block** agree exactly if no indentation stands in front of an empty first
line. -/
theorem ownPrompt_eq_iff {m : BlockData} (h : m.IsMade) (opens : Bool) :
    ownPrompt opens false "" m = m.ownText ↔
      (0 < m.gapLines → m.indentation ≠ "" → m.lines.headD "" ≠ "") := by
  rw [ownText_made h, ownPrompt_unnumbered]
  by_cases hlost : 0 < m.gapLines ∧ m.lines.headD "" = ""
  · rw [if_pos hlost]
    constructor
    · intro heq _ hindentation
      -- one text has the indentation, the other one does not
      have hlength := congrArg String.length heq
      simp only [String.length_append, String.length_empty] at hlength
      exact absurd (String.length_eq_zero_iff.1 (by omega)) hindentation
    · intro hcondition
      have hindentation : m.indentation = "" := by
        by_contra hne
        exact hcondition hlost.1 hne hlost.2
      rw [hindentation]
  · rw [if_neg hlost]
    constructor
    · intro _ hbreaks _ hempty
      exact hlost ⟨hbreaks, hempty⟩
    · intro _
      rfl

/-! ## §3. A view with nothing left out. -/

/-- A selection of everything, with neither the names of spans nor line numbers. -/
structure PromptOptions.ShowsAll (o : PromptOptions) : Prop where
  spanIds : o.spanIds = none
  lines : o.lines = none
  excluded : o.excluded = []
  included : o.included = none
  showSpanIds : o.showSpanIds = false
  lineNumbers : o.lineNumbers = false

variable {o : PromptOptions}

theorem isSelected_showsAll (ho : o.ShowsAll) (b : Block) : isSelected o b = true := by
  simp [isSelected, ho.spanIds, ho.lines, ho.excluded, ho.included]

theorem headerFor_showsAll (ho : o.ShowsAll) (current : Option String) (info : BlockInfo) :
    headerFor o current info = "" := by
  unfold headerFor
  cases info.span with
  | none => rfl
  | some s => simp [ho.showSpanIds]

theorem closingNote_shown (o : PromptOptions) (last : Option BlockInfo) :
    closingNote o false last = "" := by
  unfold closingNote
  cases last with
  | none => rfl
  | some info => simp

/-- The text of one block in such a view. -/
def plainPrompt (b : Block) : String :=
  ownPrompt b.info.opensModule false "" b.info.toBlockData

theorem promptChildren_showsAll (ho : o.ShowsAll) {bs : List Block}
    (ih : ∀ c ∈ bs, ∀ current, promptFrom o current c = String.join (c.descendants.map plainPrompt))
    (current : Option String) (last : Option BlockInfo) :
    promptChildren o current false last bs = String.join ((preorderAll bs).map plainPrompt) := by
  induction bs generalizing current last with
  | nil =>
    rw [promptChildren, closingNote_shown]
    rfl
  | cons b bs row =>
    have hrow := row (fun c hc => ih c (List.mem_cons_of_mem _ hc))
    rw [promptChildren, if_pos (isSelected_showsAll ho b)]
    dsimp only
    rw [headerFor_showsAll ho, ho.lineNumbers, ih b List.mem_cons_self, hrow, preorderAll,
      preorder_eq, List.map_append, String.join_append, List.map_cons, String.join_cons]
    rfl

/-- **A view with nothing left out** is all blocks below, in document order. -/
theorem promptFrom_showsAll (ho : o.ShowsAll) (b : Block) :
    ∀ current, promptFrom o current b = String.join (b.descendants.map plainPrompt) := by
  induction b using tree_induction with
  | node b ih =>
    intro current
    obtain ⟨info, children⟩ := b
    show promptChildren o current false none children
      = String.join ((preorderAll children).map plainPrompt)
    exact promptChildren_showsAll ho ih current none

/-! ## §4. The two views of a tree. -/

/-- A block that shows nothing of its own does not begin a line. -/
theorem gapLines_of_ownText_empty {m : BlockData} (h : m.IsMade) (hempty : m.ownText = "") :
    m.gapLines = 0 := by
  obtain ⟨hpositive, -, -⟩ := h.measured
  by_contra hbreaks
  obtain ⟨n, hn⟩ : ∃ n : Nat, m.gapLines = (n + 1 : Nat) := ⟨(m.gapLines - 1).toNat, by omega⟩
  have hchars := congrArg String.toList hempty
  rw [ownText_made h, hn, String.toList_append, Gap.toList_replicate, List.replicate_succ] at hchars
  cases hchars

/-- **The two views of a tree.**  If its blocks are made of their gaps, contents and children, and the
root shows nothing of its own, the view with nothing left out is the text of the tree exactly if no
block has an indentation behind line breaks in front of an empty first line. -/
theorem prompt_eq_text_iff (o : PromptOptions) (ho : o.ShowsAll) (b : Block)
    (hmade : ∀ c ∈ b.preorder, c.info.toBlockData.IsMade) (hroot : b.info.ownText = "") :
    b.prompt o = b.text ↔
      ∀ c ∈ b.preorder, 0 < c.info.gapLines → c.info.indentation ≠ "" →
        c.info.lines.headD "" ≠ "" := by
  have hbelow : ∀ c ∈ b.descendants, c.info.toBlockData.IsMade := by
    intro c hc
    apply hmade
    rw [preorder_eq]
    exact List.mem_cons_of_mem _ hc
  have htext : b.text = String.join (b.descendants.map fun c => c.info.ownText) := by
    unfold text
    rw [preorder_eq, List.map_cons, String.join_cons, hroot, String.empty_append]
  have hlength : ∀ c ∈ b.descendants, c.info.ownText.length ≤ (plainPrompt c).length := by
    intro c hc
    exact length_ownText_le (hbelow c hc) c.info.opensModule
  have hbreaks := gapLines_of_ownText_empty (hmade b (self_mem_preorder b)) hroot
  rw [prompt, promptFrom_showsAll ho, htext, Text.join_map_eq_iff hlength, preorder_eq,
    List.forall_mem_cons]
  constructor
  · intro hsame
    refine ⟨?_, ?_⟩
    · intro hpositive
      omega
    · intro c hc
      exact (ownPrompt_eq_iff (hbelow c hc) c.info.opensModule).1 (hsame c hc)
  · intro hindented c hc
    exact (ownPrompt_eq_iff (hbelow c hc) c.info.opensModule).2 (hindented.2 c hc)

/-- The data of a block that is made of its gap and its content. -/
def dataOf (gap content : String) : BlockData :=
  ({ kind := .code, content, gap } : BlockData).make.toOption.getD default

theorem isMade_dataOf {gap content : String} (h : gap.toList.all isGapChar = true) :
    (dataOf gap content).IsMade := by
  refine ⟨{ kind := .code, content, gap }, rfl, rfl, ?_⟩
  unfold dataOf make
  rw [if_pos h]
  rfl

/-- A block that is made of its gap, its content and its children. -/
def blockOf (gap content : String) (children : List Block) : Block :=
  ⟨{ toBlockData := dataOf gap content, id := 0, path := [] }, children⟩

/-- A function with a body of several lines behind two line breaks, a note on its line, and an empty
line at the end. -/
def shortModule : Block :=
  blockOf "" "" [
    blockOf "\n\n" "def f():" [blockOf " " "# note" [], blockOf " \n    " "x = 1\n\n    y = 2" []],
    blockOf "\n" "" []]

theorem prompt_eq_text_iff_shortModule :
    (∀ c ∈ shortModule.preorder, c.info.toBlockData.IsMade) ∧ shortModule.info.ownText = "" ∧
    shortModule.prompt {} = shortModule.text := by
  have hdata : shortModule.preorder.map (·.info.toBlockData)
      = [dataOf "" "", dataOf "\n\n" "def f():", dataOf " " "# note",
        dataOf " \n    " "x = 1\n\n    y = 2", dataOf "\n" ""] := rfl
  have hmade : ∀ c ∈ shortModule.preorder, c.info.toBlockData.IsMade := by
    intro c hc
    have hmem := List.mem_map_of_mem (f := (·.info.toBlockData)) hc
    rw [hdata] at hmem
    simp only [List.mem_cons, List.not_mem_nil, or_false] at hmem
    obtain h | h | h | h | h := hmem
    all_goals
      rw [h]
      exact isMade_dataOf (by decide)
  have hroot : shortModule.info.ownText = "" := by decide +kernel
  refine ⟨hmade, hroot, ?_⟩
  rw [prompt_eq_text_iff {} ⟨rfl, rfl, rfl, rfl, rfl, rfl⟩ shortModule hmade hroot]
  decide +kernel

end Block

end CodeAtlas

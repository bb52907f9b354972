import CodeAtlas.Proofs.Outcome
import CodeAtlas.Proofs.Parse.Placement

/-!
# The steps of reading

What a successful reading consists of, said once for all that is proved about it.

* `namedData_changes`, `finish_changes`: what naming and finishing a block can change of its data.
* `readNode_ok`: a block has been read by finding out what its node means, entering it into a span,
  reading the blocks below it and finishing it.
* `readRow_rule`, `readBelow_rule`: what holds before each block of a row and is kept by reading one
  holds at the end of the row.
* `readRoot_ok`, `parse_ok`: the same for the module.
-/

namespace CodeAtlas.Parse

variable {α β : Type} {p q r : Progress} {s : Setting}

/-! ## §1. Successful steps in a row. -/

theorem bind_ok {x : Reading α} {f : α → Reading β} {b : β} :
    (x >>= f) p = .ok (b, q) ↔ ∃ a r, x p = .ok (a, r) ∧ f a r = .ok (b, q) := by
  show (x p >>= fun ar => f ar.1 ar.2) = _ ↔ _
  cases h : x p with
  | error e => simp [bind, Except.bind]
  | ok ar =>
    obtain ⟨a, r⟩ := ar
    simp [bind, Except.bind]

theorem lift_ok {x : Outcome α} {a : α} :
    (liftM x : Reading α) p = .ok (a, q) ↔ x = .ok a ∧ q = p := by
  show (x >>= fun a => pure (a, p)) = _ ↔ _
  cases x with
  | error e => simp [bind, Except.bind]
  | ok b => simp [bind, Except.bind, pure, Except.pure, eq_comm]

theorem lift_bind_ok {x : Outcome α} {f : α → Reading β} {b : β} :
    (liftM x >>= f : Reading β) p = .ok (b, q) ↔ ∃ a, x = .ok a ∧ f a p = .ok (b, q) := by
  rw [bind_ok]
  constructor
  · rintro ⟨a, r, hx, hf⟩
    obtain ⟨hok, hr⟩ := lift_ok.mp hx
    rw [hr] at hf
    exact ⟨a, hok, hf⟩
  · rintro ⟨a, hx, hf⟩
    exact ⟨a, p, lift_ok.mpr ⟨hx, rfl⟩, hf⟩

theorem get_bind_ok {f : Progress → Reading β} {b : β} :
    (get >>= f : Reading β) p = .ok (b, q) ↔ f p p = .ok (b, q) :=
  Iff.rfl

theorem pure_ok {a b : α} : (pure a : Reading α) p = .ok (b, q) ↔ a = b ∧ p = q := by
  show Except.ok (a, p) = _ ↔ _
  simp

/-- A change that is made under a condition, with whatever follows it. -/
theorem modify_if {c : Prop} [Decidable c] {f : Progress → Progress} {rest : Reading α} :
    (if c then (do modify f; rest) else rest) p = rest (if c then f p else p) := by
  by_cases hc : c
  · rw [if_pos hc, if_pos hc]
    rfl
  · rw [if_neg hc, if_neg hc]

theorem not_throw_ok {e : Failure} {a : α} : (throw e : Reading α) p ≠ .ok (a, q) := by
  intro h
  exact absurd (show Except.error e = Except.ok (a, q) from h) (by simp)

theorem begin_bind_ok {node : Nat} {f : Nat → Reading β} {b : β} :
    (begin node >>= f : Reading β) p = .ok (b, q) ↔
      f p.visited.length (p.begun node) = .ok (b, q) :=
  Iff.rfl

/-! ## §2. One block. -/

/-- What decides the span of a block with the given data. -/
def newBlock (d : BlockData) (id : Nat) (above : List OpenBlock) : NewBlock :=
  { id, kind := d.kind, path := (above.headD default).path ++ d.namePath
    startLine := d.startLine, endLine := d.endLine, tokens := d.tokens, above }

/-- A block with the given data while the blocks below it are read. -/
def openBlock (d : BlockData) (id : Nat) (above : List OpenBlock) : OpenBlock :=
  { id, kind := d.kind, name := d.name, path := (above.headD default).path ++ d.namePath
    relationships := d.relationships }

/-- Making a block measures its gap and splits its content into lines. -/
theorem make_changes {d made : BlockData} (h : d.make = .ok made) :
    ∃ gapLines indentation lines, made = { d with gapLines, indentation, lines } := by
  unfold BlockData.make at h
  split at h
  · rw [← Except.ok.inj h]
    split
    · exact ⟨_, _, _, rfl⟩
    · exact ⟨_, _, _, rfl⟩
  · exact absurd h (by simp)

theorem namedData_changes {m : Meaning} {siblings : List (BlockKind × Option String)}
    {raw d : BlockData} (h : namedData s m siblings raw = .ok d) :
    ∃ kind name gapLines indentation lines,
      d = { raw with kind, name, gapLines, indentation, lines } := by
  unfold namedData at h
  rw [Outcome.bind_ok] at h
  obtain ⟨made, hmade, hd⟩ := h
  obtain ⟨gapLines, indentation, lines, rfl⟩ := make_changes hmade
  rw [← Except.ok.inj hd]
  exact ⟨_, _, _, _, _, rfl⟩

/-- Finishing a block may change its kind and its relationships; of the blocks below it, mistakes
are noted. -/
theorem finish_changes {above : List OpenBlock} {d final : BlockData} {id : Nat}
    {children refined : List Block} (h : finish s above d id children p = .ok ((final, refined), q)) :
    (∃ kind relationships, final = { d with kind, relationships })
    ∧ (refined = children ∨ refined = Refine.markAllRepeats children) := by
  unfold finish at h
  split at h
  · rw [get_bind_ok, modify_if] at h
    obtain ⟨heq, -⟩ := pure_ok.mp h
    obtain ⟨rfl, rfl⟩ := Prod.mk.inj heq
    exact ⟨⟨_, _, rfl⟩, .inr rfl⟩
  · obtain ⟨heq, -⟩ := pure_ok.mp h
    obtain ⟨rfl, rfl⟩ := Prod.mk.inj heq
    exact ⟨⟨_, _, rfl⟩, .inl rfl⟩

/-- **How a block has been read.** -/
theorem readNode_ok {fuel : Nat} {above : List OpenBlock}
    {siblings : List (BlockKind × Option String)} {node : Nat} {start : Int} {current : Option Nat}
    {read : Read}
    (h : readNode s fuel above siblings node start current p = .ok (read, q)) :
    ∃ depth m raw d span below waited spanIds final children p₁ p₂ p₃ p₄ p₅,
      fuel = depth + 1
      ∧ Meaning.ofNode s.tree s.captures s.dialect s.tweaked node = .ok m
      ∧ blockData s m node start = .ok raw
      ∧ namedData s m siblings raw = .ok d
      ∧ enterBlock s current (newBlock d p.visited.length above) (p.begun node) = .ok (span, p₁)
      ∧ recordNames p.visited.length (newBlock d p.visited.length above).path raw.relationships p₁
          = .ok ((), p₂)
      ∧ readBelow s m node false
          (readNode s depth (openBlock d p.visited.length above :: above)) span p₂
          = .ok ((below, read.last), p₃)
      ∧ settleRest p.visited.length below.span p₃ = .ok (waited, p₄)
      ∧ finish s above { d with spanIds } p.visited.length below.children p₄
          = .ok ((final, children), p₅)
      ∧ index (newBlock d p.visited.length above).path p₅ = .ok ((), q)
      ∧ read.span = below.span
      ∧ read.block = ⟨{ final with
          id := p.visited.length, path := (newBlock d p.visited.length above).path }, children⟩ := by
  cases fuel with
  | zero => exact absurd h not_throw_ok
  | succ depth =>
    rw [readNode] at h
    rw [lift_bind_ok] at h
    obtain ⟨m, hm, h⟩ := h
    rw [lift_bind_ok] at h
    obtain ⟨raw, hraw, h⟩ := h
    rw [lift_bind_ok] at h
    obtain ⟨d, hd, h⟩ := h
    rw [begin_bind_ok, bind_ok] at h
    obtain ⟨span, p₁, hspan, h⟩ := h
    rw [bind_ok] at h
    obtain ⟨_, p₂, hnames, h⟩ := h
    rw [get_bind_ok, bind_ok] at h
    obtain ⟨⟨below, last⟩, p₃, hbelow, h⟩ := h
    rw [bind_ok] at h
    obtain ⟨waited, p₄, hsettle, h⟩ := h
    rw [get_bind_ok, bind_ok] at h
    obtain ⟨⟨final, children⟩, p₅, hfinish, h⟩ := h
    rw [bind_ok] at h
    obtain ⟨_, p₆, hindex, h⟩ := h
    obtain ⟨rfl, rfl⟩ := pure_ok.mp h
    exact ⟨depth, m, raw, d, span, below, waited, _, final, children, p₁, p₂, p₃, p₄, p₅, rfl, hm,
      hraw, hd, hspan, hnames, hbelow, hsettle, hfinish, hindex, rfl, rfl⟩

/-! ## §3. A row of blocks. -/

/-- What has been read below a block after one more block, at which reading has come to `node`. -/
def Below.after (s : Setting) (p : Progress) (below : Below) (read : Read) (node : Nat) : Below :=
  { children := below.children ++ [read.block]
    span := if below.span.isNone || spanId? p read.span ≠ spanId? p below.span then read.span
      else below.span
    stop := s.tree.stop node }

/-- The blocks right below the module are noted when they are finished. -/
def Progress.noting (p : Progress) (atTop : Bool) (b : Block) : Progress :=
  if atTop then { p with finished := p.finished ++ [b] } else p

/-- **What is kept by reading one block of a row holds at its end.**  `Inv` holds before a node is
read, `Post` at the end. -/
theorem readRow_rule {origin : Nat} {last : Option Nat} {atTop : Bool}
    {readOne : List (BlockKind × Option String) → Nat → Int → Option Nat → Reading Read}
    (Inv : Nat → Below → Progress → Prop) (Post : Below → Option Nat → Progress → Prop)
    (step : ∀ node below p read q, Inv node below p →
      readOne (siblingNames below.children) (enterBody s.tree node) below.stop below.span p
        = .ok (read, q) →
      let p' := q.noting atTop read.block
      let node' := read.last.getD (enterBody s.tree node)
      (some node' = last → Post (below.after s p' read node') (some node') p')
      ∧ (some node' ≠ last → following s.tree origin node' = .ok none →
          Post (below.after s p' read node') none p')
      ∧ (∀ next, some node' ≠ last → following s.tree origin node' = .ok (some next) →
          Inv next (below.after s p' read node') p')) :
    ∀ (fuel node : Nat) (below : Below) (p : Progress) (found : Below) (l : Option Nat)
      (q : Progress), Inv node below p →
      readRow s origin last atTop readOne fuel node below p = .ok ((found, l), q) → Post found l q
  | 0, _, _, _, _, _, _, _, h => absurd h not_throw_ok
  | fuel + 1, node, below, p, found, l, q, hinv, h => by
    rw [readRow] at h
    simp only [bind_ok] at h
    obtain ⟨read, p₁, hread, h⟩ := h
    rw [modify_if, get_bind_ok] at h
    obtain ⟨hlast, hnone, hnext⟩ := step node below p read p₁ hinv hread
    -- the row ends at its last node, or where no node follows, and else goes on at the next one
    by_cases heq : some (read.last.getD (enterBody s.tree node)) = last
    · rw [if_pos heq, pure_ok] at h
      obtain ⟨hfound, rfl⟩ := h
      obtain ⟨rfl, rfl⟩ := Prod.mk.inj hfound
      exact hlast heq
    · rw [if_neg heq] at h
      rw [lift_bind_ok] at h
      obtain ⟨answer, hfollow, h⟩ := h
      cases answer with
      | none =>
        obtain ⟨hfound, rfl⟩ := pure_ok.mp h
        obtain ⟨rfl, rfl⟩ := Prod.mk.inj hfound
        exact hnone heq hfollow
      | some next => exact readRow_rule Inv Post step fuel next _ _ found l q (hnext next heq hfollow) h

/-- What holds before any block below a block is read, and is kept by reading one, holds after all of
them, wherever they begin and end. -/
theorem readBelow_rule {m : Meaning} {node : Nat} {atTop : Bool} {span last : Option Nat}
    {readOne : List (BlockKind × Option String) → Nat → Int → Option Nat → Reading Read}
    {below : Below} (Inv : Below → Progress → Prop) (start : ∀ stop, Inv { span, stop } p)
    (step : ∀ node below p read q, Inv below p →
      readOne (siblingNames below.children) node below.stop below.span p = .ok (read, q) →
      Inv (below.after s (q.noting atTop read.block) read (read.last.getD node))
        (q.noting atTop read.block))
    (h : readBelow s m node atTop readOne span p = .ok ((below, last), q)) : Inv below q := by
  unfold readBelow at h
  cases hfirst : m.firstChild with
  | none =>
    rw [hfirst] at h
    obtain ⟨hbelow, rfl⟩ := pure_ok.mp h
    obtain ⟨rfl, -⟩ := Prod.mk.inj hbelow
    exact start _
  | some first =>
    rw [hfirst] at h
    refine readRow_rule (fun _ below q => Inv below q) (fun below _ q => Inv below q) ?_ _ _ _ p below
      last q (start _) h
    intro node below p' read q' hinv hread
    have hafter := step (enterBody s.tree node) below p' read q' hinv hread
    exact ⟨fun _ => hafter, fun _ _ => hafter, fun _ _ _ => hafter⟩

/-! ## §4. The module. -/

/-- The module while its blocks are read. -/
def openModule (id : Nat) : OpenBlock :=
  { id, kind := .moduleDef, name := none, path := [], relationships := [] }

/-- The data of the module, given those that its root would make. -/
def moduleData (raw : BlockData) : BlockData :=
  { kind := .moduleDef, content := "", startLine := raw.startLine, endLine := raw.endLine
    properties := raw.properties, isModule := true }

/-- The data of the block for the blanks at the end of the module. -/
def spaceData (raw : BlockData) (gap : String) : BlockData :=
  { kind := .space, content := "", gap, startLine := raw.endLine, endLine := raw.endLine }

/-- **How a module has been read.** -/
theorem readRoot_ok {root : Block} (h : readRoot s p = .ok (root, q)) :
    ∃ m raw d below last spanIds final children p₁ p₂,
      Meaning.ofNode s.tree s.captures s.dialect s.tweaked 0 = .ok m
      ∧ blockData s m 0 0 = .ok raw
      ∧ (moduleData raw).make = .ok d
      ∧ readBelow s m 0 true
          (readNode s (s.tree.nodes.size + 1) [openModule p.visited.length]) none (p.begun 0)
          = .ok ((below, last), p₁)
      ∧ finish s [] { d with spanIds } p.visited.length below.children p₁
          = .ok ((final, children), p₂)
      ∧ index [] p₂ = .ok ((), q)
      ∧ ((below.stop < s.tree.stop 0 ∧ ∃ gap space,
            Source.cut s.tree.source below.stop (s.tree.stop 0) = .ok gap
            ∧ (spaceData raw gap).make = .ok space
            ∧ root = ⟨{ final with id := p.visited.length, path := [] },
                children ++ [⟨{ space with id := q.visited.length, path := [] }, []⟩]⟩)
        ∨ (¬ below.stop < s.tree.stop 0
            ∧ root = ⟨{ final with id := p.visited.length, path := [] }, children⟩)) := by
  unfold readRoot at h
  rw [lift_bind_ok] at h
  obtain ⟨m, hm, h⟩ := h
  rw [lift_bind_ok] at h
  obtain ⟨raw, hraw, h⟩ := h
  rw [begin_bind_ok, lift_bind_ok] at h
  obtain ⟨d, hd, h⟩ := h
  rw [bind_ok] at h
  obtain ⟨⟨below, last⟩, p₁, hbelow, h⟩ := h
  rw [bind_ok] at h
  obtain ⟨⟨final, children⟩, p₂, hfinish, h⟩ := h
  rw [bind_ok] at h
  obtain ⟨_, p₃, hindex, h⟩ := h
  dsimp only at h
  -- whatever the blocks have left of the root becomes a block of blanks
  by_cases hstop : below.stop < s.tree.stop 0
  · rw [if_pos hstop, lift_bind_ok] at h
    obtain ⟨gap, hgap, h⟩ := h
    rw [lift_bind_ok] at h
    obtain ⟨space, hspace, h⟩ := h
    rw [get_bind_ok] at h
    obtain ⟨rfl, rfl⟩ := pure_ok.mp h
    exact ⟨m, raw, d, below, last, _, final, children, p₁, p₂, hm, hraw, hd, hbelow, hfinish,
      hindex, .inl ⟨hstop, gap, space, hgap, hspace, rfl⟩⟩
  · rw [if_neg hstop] at h
    obtain ⟨rfl, rfl⟩ := pure_ok.mp h
    exact ⟨m, raw, d, below, last, _, final, children, p₁, p₂, hm, hraw, hd, hbelow, hfinish,
      hindex, .inr ⟨hstop, rfl⟩⟩

/-- A module is what its root was read to, with the spans that the blocks were entered into. -/
theorem parse_ok {module : Module} (h : parse s = .ok module) :
    ∃ root p, readRoot s {} = .ok (root, p)
      ∧ module = { root := root.assignSpans p.ledger.spanOfBlock, ledger := p.ledger
                   graph := p.graph, visited := p.visited, linked := p.linked
                   indexed := p.indexed } := by
  unfold parse at h
  cases hroot : (readRoot s).run {} with
  | error e =>
    rw [hroot] at h
    exact absurd h (by simp [bind, Except.bind])
  | ok result =>
    obtain ⟨root, p⟩ := result
    rw [hroot] at h
    have hmodule := Except.ok.inj h
    exact ⟨root, p, hroot, hmodule.symm⟩

end CodeAtlas.Parse

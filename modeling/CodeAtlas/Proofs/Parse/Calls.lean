import CodeAtlas.Proofs.Outcome
import CodeAtlas.Proofs.Parse.Steps
import CodeAtlas.Proofs.Syntax.Preorder

/-!
# The nodes that reading comes to

Reading a block may jump: into the middle of the block just read, to the first statement of a body,
to a neighbour, or to a neighbour of a node further out.  `calls` lists the nodes for which a block
is begun, in the order in which this happens, also where reading fails in the end.

What carries the proof is that reading always moves on in the preorder of the tree: what it has come
to so far is passed at the node where it stands (`SyntaxTree.Passed`), and it goes on behind that.
Hence the list is strictly increasing, no recursion and no row of blocks goes on longer than there
are nodes, and no node makes two blocks.
-/

namespace CodeAtlas

open Outcome (Ends)

/-! ## §1. Questions end. -/

namespace Meaning

variable {t : SyntaxTree} {table : CaptureTable} {node : Nat}

theorem firstAnswer_ends {answer : Query → Outcome (Option Meaning)} (queries : List Query)
    (h : ∀ q ∈ queries, Ends (answer q)) : Ends (firstAnswer answer queries) := by
  induction queries with
  | nil => exact Ends.ok none
  | cons q qs ih =>
    rw [firstAnswer]
    cases ha : answer q with
    | error e => exact (h q List.mem_cons_self).hand_on ha
    | ok result =>
      cases result with
      | none => exact ih fun q' hq' => h q' (List.mem_cons_of_mem _ hq')
      | some m => exact Ends.ok _

/-- Reading captures ends if the questions that they hand on do. -/
theorem read_ends {search : Nat → Outcome (Option Meaning)} (cs : List Capture) (m : Meaning)
    (h : ∀ c ∈ cs, c.tag = "check_child" ∨ c.tag = "parse_child" → Ends (search c.node)) :
    Ends (read t search node true m cs) := by
  induction cs generalizing m with
  | nil => exact Ends.ok _
  | cons c cs ih =>
    have hrest : ∀ m', Ends (read t search node true m' cs) :=
      fun m' => ih m' fun c' hc' => h c' (List.mem_cons_of_mem _ hc')
    have hasked := h c List.mem_cons_self
    rw [read]
    simp only [Bool.true_or, Bool.not_true, Bool.false_eq_true, if_false]
    split
    · exact Ends.ok none
    · split
      next hcheck =>
        cases hs : search c.node with
        | error e => exact (hasked (.inl hcheck)).hand_on hs
        | ok answer => exact Ends.ok _
      next =>
        split
        next hparse =>
          cases hs : search c.node with
          | error e => exact (hasked (.inr hparse)).hand_on hs
          | ok answer => exact hrest _
        next => exact hrest _

/-- **A question that is handed on downwards ends**: there are fewer nodes left each time. -/
theorem search_ends (ht : t.Preordered) {queries : List Query}
    (hdescending : Descending t table queries) :
    ∀ fuel node, t.nodes.size ≤ fuel + node → 0 < fuel → Ends (search t table queries fuel node)
  | 0, _, _, hpos => absurd hpos (Nat.lt_irrefl 0)
  | fuel + 1, node, hfuel, _ => by
    rw [search]
    apply firstAnswer_ends
    intro q hq
    rw [read_false]
    apply read_ends
    intro c hc htag
    have hbelow := hdescending.askedBelow q (List.mem_of_mem_filter hq) node c hc htag
    have hlt := ht.lt_of_below hbelow
    have hsize := SyntaxTree.Preordered.lt_size_of_below hbelow
    exact search_ends ht hdescending fuel c.node (by omega) (by omega)

theorem ofNode_ends (ht : t.Preordered) {dialect : Dialect}
    (hdescending : Descending t table dialect.queries) : Ends (ofNode t table dialect false node) := by
  unfold ofNode
  split
  · exact Ends.ok error
  · apply Ends.bind (Ends.ok none)
    intro tweak htweak
    obtain rfl : none = tweak := Except.ok.inj htweak
    apply Ends.bind (search_ends ht hdescending _ node (by omega) (by omega))
    intro answer _
    exact Ends.ok _

end Meaning

namespace Parse

variable {α β : Type} {p q : Progress} {s : Setting}

/-! ## §2. The steps of one block end. -/

theorem cut_ends (source : ByteArray) (start stop : Int) : Ends (Source.cut source start stop) := by
  unfold Source.cut Source.decode
  split
  · exact Ends.ok _
  · exact Ends.error (by simp)

theorem relationships_ends (t : SyntaxTree) (m : Meaning) (name : Option String) :
    Ends (m.relationships t name) := by
  unfold Meaning.relationships
  split
  · unfold Meaning.importRelationships
    split
    · exact Ends.ok []
    · apply Ends.bind (cut_ends _ _ _)
      intro source _
      dsimp only
      split
      · exact Ends.ok _
      · apply Ends.mapM
        intro r
        exact Ends.bind (cut_ends _ _ _) fun name _ => Ends.ok _
  · apply Ends.mapM
    intro r
    exact Ends.bind (cut_ends _ _ _) fun path _ => Ends.ok _

theorem textOf_ends (t : SyntaxTree) (node : Option Nat) : Ends (node.mapM t.text) := by
  cases node with
  | none => exact Ends.ok none
  | some n =>
    show Ends (some <$> t.text n)
    have htext : Ends (t.text n) := cut_ends _ _ _
    cases hvalue : t.text n with
    | error e => exact htext.hand_on hvalue
    | ok text => exact Ends.ok _

theorem typedParameters_ends (t : SyntaxTree) (m : Meaning) : Ends (m.typedParameters t) := by
  apply Ends.mapM
  intro parameter
  apply Ends.bind (textOf_ends t parameter.2)
  intro typeName _
  exact Ends.bind (cut_ends _ _ _) fun name _ => Ends.ok _

theorem blockData_ends (s : Setting) (m : Meaning) (node : Nat) (start : Int) :
    Ends (blockData s m node start) := by
  unfold blockData
  apply Ends.bind (cut_ends _ _ _)
  intro gap _
  apply Ends.bind (cut_ends _ _ _)
  intro content _
  apply Ends.bind (textOf_ends _ _)
  intro name _
  apply Ends.bind (relationships_ends _ _ _)
  intro references _
  apply Ends.bind (typedParameters_ends _ _)
  intro parameters _
  exact Ends.ok _

theorem make_ends (d : BlockData) : Ends d.make := by
  unfold BlockData.make
  split
  · exact Ends.ok _
  · exact Ends.error (by simp)

theorem namedData_ends (s : Setting) (m : Meaning) (siblings : List (BlockKind × Option String))
    (raw : BlockData) : Ends (namedData s m siblings raw) :=
  Ends.bind (make_ends raw) fun _ _ => Ends.ok _

/-! ## §3. Before and after the blocks below. -/

/-- An operation that does not look at what has been made, with whatever follows it. -/
theorem lift_bind (x : Outcome α) (f : α → Reading β) :
    (liftM x >>= f : Reading β) p
      = match x with
        | .error e => .error e
        | .ok a => f a p := by
  cases x with
  | error e => rfl
  | ok a => rfl

/-- What is done for a node before the blocks below its block are read: gives what the node means,
the data of its block, the span in which reading goes on, and the span the block was entered into. -/
def opening (s : Setting) (above : List OpenBlock) (siblings : List (BlockKind × Option String))
    (node : Nat) (start : Int) (current : Option Nat) :
    Reading (Meaning × BlockData × Option Nat × Option Nat) := do
  let m ← Meaning.ofNode s.tree s.captures s.dialect s.tweaked node
  let raw ← blockData s m node start
  let d ← namedData s m siblings raw
  let id ← begin node
  let span ← enterBlock s current (newBlock d id above)
  recordNames id (newBlock d id above).path raw.relationships
  let own := if (← get).waiting.any fun w => w.block = id then none else span
  return (m, d, span, own)

/-- What is done for the block of a node after the blocks below it have been read. -/
def closing (s : Setting) (above : List OpenBlock) (d : BlockData) (id : Nat) (own : Option Nat)
    (result : Below × Option Nat) : Reading Read := do
  let below := result.1
  let waited ← settleRest id below.span
  let p ← get
  let spanIds := below.children.foldl (fun ids c => Assoc.union ids c.info.spanIds)
    (Assoc.union [] ((spanId? p own).toList
      ++ (if waited then (spanId? p below.span).toList else [])))
  let (final, children) ← finish s above { d with spanIds } id below.children
  index (newBlock d id above).path
  return { block := ⟨{ final with id, path := (newBlock d id above).path }, children⟩
           last := result.2, span := below.span }

theorem get_bind_eq (f : Progress → Reading β) : (get >>= f : Reading β) p = f p p :=
  rfl

theorem begin_bind_eq (node : Nat) (f : Nat → Reading β) :
    (begin node >>= f : Reading β) p = f p.visited.length (p.begun node) :=
  rfl

theorem index_bind_eq (path : Path) (f : Unit → Reading β) :
    (index path >>= f : Reading β) p = f () { p with indexed := p.indexed ++ [path.text] } :=
  rfl

theorem readNode_eq (fuel : Nat) (above : List OpenBlock)
    (siblings : List (BlockKind × Option String)) (node : Nat) (start : Int) (current : Option Nat) :
    readNode s (fuel + 1) above siblings node start current p
      = (opening s above siblings node start current >>= fun (m, d, span, own) =>
          readBelow s m node false
            (readNode s fuel (openBlock d p.visited.length above :: above)) span
          >>= closing s above d p.visited.length own) p := by
  rw [readNode, opening]
  simp only [bind_assoc, pure_bind]
  rw [lift_bind, lift_bind]
  cases Meaning.ofNode s.tree s.captures s.dialect s.tweaked node with
  | error e => rfl
  | ok m =>
    dsimp only
    rw [lift_bind, lift_bind]
    cases blockData s m node start with
    | error e => rfl
    | ok raw =>
      dsimp only
      rw [lift_bind, lift_bind]
      cases namedData s m siblings raw with
      | error e => rfl
      | ok d =>
        dsimp only
        rw [begin_bind_eq, begin_bind_eq]
        unfold newBlock openBlock closing
        rfl

/-- One block of a row, and the rest of the row. -/
theorem readRow_eq {origin : Nat} {last : Option Nat} {atTop : Bool}
    {readOne : List (BlockKind × Option String) → Nat → Int → Option Nat → Reading Read}
    (fuel node : Nat) (below : Below) :
    readRow s origin last atTop readOne (fuel + 1) node below p
      = match readOne (siblingNames below.children) (enterBody s.tree node) below.stop below.span p with
        | .error e => .error e
        | .ok (read, q) =>
          let p' := q.noting atTop read.block
          let node' := read.last.getD (enterBody s.tree node)
          if some node' = last then .ok ((below.after s p' read node', some node'), p')
          else
            match following s.tree origin node' with
            | .error e => .error e
            | .ok none => .ok ((below.after s p' read node', none), p')
            | .ok (some next) =>
              readRow s origin last atTop readOne fuel next (below.after s p' read node') p' := by
  rw [readRow]
  dsimp only
  show (readOne _ _ _ _ p >>= fun result => _) = _
  cases hread : readOne (siblingNames below.children) (enterBody s.tree node) below.stop below.span p with
  | error e => rfl
  | ok result =>
    obtain ⟨read, q⟩ := result
    show (if atTop = true then _ else _ : Reading _) q = _
    rw [modify_if, get_bind_eq]
    dsimp only
    show (if some (read.last.getD (enterBody s.tree node)) = last then _ else _ : Reading _)
      (q.noting atTop read.block) = _
    by_cases heq : some (read.last.getD (enterBody s.tree node)) = last
    · rw [if_pos heq, if_pos heq]
      rfl
    · rw [if_neg heq, if_neg heq, lift_bind]
      cases following s.tree origin (read.last.getD (enterBody s.tree node)) with
      | error e => rfl
      | ok answer =>
        cases answer with
        | none => rfl
        | some next => rfl

/-- What is done for the root before the blocks of the module are read: gives what the root means,
the data that it would make, and those of the module. -/
def openingRoot (s : Setting) : Reading (Meaning × BlockData × BlockData) := do
  let m ← Meaning.ofNode s.tree s.captures s.dialect s.tweaked 0
  let raw ← blockData s m 0 0
  let _ ← begin 0
  let d ← (moduleData raw).make
  return (m, raw, d)

/-- What is done for the module after its blocks have been read. -/
def closingRoot (s : Setting) (raw d : BlockData) (id : Nat) (result : Below × Option Nat) :
    Reading Block := do
  let below := result.1
  let spanIds := below.children.foldl (fun ids c => Assoc.union ids c.info.spanIds) []
  let (final, children) ← finish s [] { d with spanIds } id below.children
  index []
  if below.stop < s.tree.stop 0 then
    let gap ← Source.cut s.tree.source below.stop (s.tree.stop 0)
    let space ← (spaceData raw gap).make
    let spaceId := (← get).visited.length
    return ⟨{ final with id, path := [] },
      children ++ [⟨{ space with id := spaceId, path := [] }, []⟩]⟩
  return ⟨{ final with id, path := [] }, children⟩

theorem readRoot_eq :
    readRoot s p
      = (openingRoot s >>= fun (m, raw, d) =>
          readBelow s m 0 true (readNode s (s.tree.nodes.size + 1) [openModule p.visited.length]) none
          >>= closingRoot s raw d p.visited.length) p := by
  rw [readRoot, openingRoot]
  simp only [bind_assoc, pure_bind]
  rw [lift_bind, lift_bind]
  cases Meaning.ofNode s.tree s.captures s.dialect s.tweaked 0 with
  | error e => rfl
  | ok m =>
    dsimp only
    rw [lift_bind, lift_bind]
    cases blockData s m 0 0 with
    | error e => rfl
    | ok raw =>
      dsimp only
      rw [begin_bind_eq, begin_bind_eq]
      unfold moduleData
      rw [lift_bind, lift_bind]
      split
      · rfl
      · rfl

/-! ## §4. The nodes that reading comes to. -/

/-- A way to read one block, after its siblings, from a node, a start and a span on. -/
abbrev ReadOne := List (BlockKind × Option String) → Nat → Int → Option Nat → Reading Read

/-- The nodes that a way to read one block comes to. -/
abbrev CallsOne := List (BlockKind × Option String) → Nat → Int → Option Nat → Progress → List Nat

/-- The nodes that a row of blocks comes to.  The row ends where a block fails. -/
def rowCalls (s : Setting) (origin : Nat) (last : Option Nat) (atTop : Bool) (readOne : ReadOne)
    (callsOne : CallsOne) : Nat → Nat → Below → Progress → List Nat
  | 0, _, _, _ => []
  | fuel + 1, node, below, p =>
    let node := enterBody s.tree node
    callsOne (siblingNames below.children) node below.stop below.span p
      ++ match readOne (siblingNames below.children) node below.stop below.span p with
        | .error _ => []
        | .ok (read, q) =>
          let p' := q.noting atTop read.block
          let node' := read.last.getD node
          if some node' = last then []
          else
            match following s.tree origin node' with
            | .ok (some next) =>
              rowCalls s origin last atTop readOne callsOne fuel next (below.after s p' read node') p'
            | _ => []

/-- The nodes that the blocks below a block come to. -/
def belowCalls (s : Setting) (m : Meaning) (node : Nat) (atTop : Bool) (readOne : ReadOne)
    (callsOne : CallsOne) (span : Option Nat) (p : Progress) : List Nat :=
  match m.firstChild with
  | none => []
  | some first =>
    rowCalls s (m.checked.getD node) m.lastChild atTop readOne callsOne (s.tree.nodes.size + 1) first
      { span, stop := s.tree.endBefore node first } p

/-- The nodes that reading a node comes to: the node itself, and those of the blocks below. -/
def nodeCalls (s : Setting) : Nat → List OpenBlock → CallsOne
  | 0, _, _, node, _, _, _ => [node]
  | fuel + 1, above, siblings, node, start, current, p =>
    node :: match opening s above siblings node start current p with
      | .error _ => []
      | .ok ((m, d, span, _), q) =>
        let above := openBlock d p.visited.length above :: above
        belowCalls s m node false (readNode s fuel above) (nodeCalls s fuel above) span q

/-- The nodes that reading a module comes to, whether or not it succeeds. -/
def calls (s : Setting) : List Nat :=
  0 :: match openingRoot s {} with
    | .error _ => []
    | .ok ((m, _), q) =>
      belowCalls s m 0 true (readNode s (s.tree.nodes.size + 1) [openModule 0])
        (nodeCalls s (s.tree.nodes.size + 1) [openModule 0]) none q

/-! ## §5. Each step moves on. -/

/-- How reading a node has moved on: through nodes in their order, all within the node, and up to
the node at which the block stopped. -/
structure Advance (s : Setting) (node : Nat) (p : Progress) (came : List Nat)
    (result : Outcome (Read × Progress)) : Prop where
  increasing : came.Pairwise (· < ·)
  within : ∀ v ∈ came, v = node ∨ s.tree.Below node v
  ends : Ends result
  visited : ∀ read q, result = .ok (read, q) → q.visited = p.visited ++ came
  stopped : ∀ read q, result = .ok (read, q) → ∀ l, read.last = some l → s.tree.Below node l
  passed : ∀ read q, result = .ok (read, q) → ∀ v ∈ came, s.tree.Passed (read.last.getD node) v

/-- A node at which reading fails at once. -/
theorem Advance.failed {node : Nat} {e : Failure} (hends : Ends (.error e : Outcome (Read × Progress))) :
    Advance s node p [node] (.error e) where
  increasing := List.pairwise_singleton _ _
  within := fun _ hv => .inl (List.mem_singleton.mp hv)
  ends := hends
  visited := fun _ _ h => absurd h (by simp)
  stopped := fun _ _ h => absurd h (by simp)
  passed := fun _ _ h => absurd h (by simp)

/-- How reading blocks below an origin has moved on, from the node `least` on. -/
structure RowAdvance (s : Setting) (origin least : Nat) (p : Progress) (came : List Nat)
    (result : Outcome ((Below × Option Nat) × Progress)) : Prop where
  increasing : came.Pairwise (· < ·)
  within : ∀ v ∈ came, s.tree.Below origin v ∧ least ≤ v
  ends : Ends result
  visited : ∀ found l q, result = .ok ((found, l), q) → q.visited = p.visited ++ came
  stopped : ∀ found n q, result = .ok ((found, some n), q) →
    s.tree.Below origin n ∧ least ≤ n ∧ ∀ v ∈ came, s.tree.Passed n v

/-- Between the two points no node was made into a block, and no block was linked. -/
structure SameBlocks (p q : Progress) : Prop where
  visited : q.visited = p.visited
  linked : q.linked = p.linked

theorem SameBlocks.trans {p q r : Progress} (h : SameBlocks p q) (h' : SameBlocks q r) :
    SameBlocks p r :=
  ⟨h'.visited.trans h.visited, h'.linked.trans h.linked⟩

theorem noting_same (p : Progress) (atTop : Bool) (b : Block) :
    SameBlocks p (p.noting atTop b) := by
  unfold Progress.noting
  split <;> exact ⟨rfl, rfl⟩

/-- What a row has come to so far lies in front of where the rest of it goes on. -/
theorem RowAdvance.after {origin node next : Nat} {p p' : Progress} {came rest : List Nat}
    {result : Outcome ((Below × Option Nat) × Progress)}
    (hrest : RowAdvance s origin next p' rest result) (hincreasing : came.Pairwise (· < ·))
    (hwithin : ∀ v ∈ came, s.tree.Below origin v ∧ node ≤ v)
    (hvisited : p'.visited = p.visited ++ came) (hlt : node < next)
    (hlater : ∀ v ∈ came, v < next) : RowAdvance s origin node p (came ++ rest) result := by
  refine ⟨?_, ?_, hrest.ends, ?_, ?_⟩
  · apply List.pairwise_append.mpr
    refine ⟨hincreasing, hrest.increasing, ?_⟩
    intro v hv w hw
    exact Nat.lt_of_lt_of_le (hlater v hv) (hrest.within w hw).2
  · intro v hv
    rcases List.mem_append.mp hv with hv | hv
    · exact hwithin v hv
    · have hw := hrest.within v hv
      exact ⟨hw.1, by omega⟩
  · intro found l q h
    rw [hrest.visited found l q h, hvisited, List.append_assoc]
  · intro found n q h
    obtain ⟨hn, hfar, hpast⟩ := hrest.stopped found n q h
    refine ⟨hn, by omega, ?_⟩
    intro v hv
    rcases List.mem_append.mp hv with hv | hv
    · have := hlater v hv
      exact .inl (by omega)
    · exact hpast v hv

/-- **A row of blocks moves on**, if each of its blocks does. -/
theorem rowCalls_advance (ht : s.tree.Preordered) {origin : Nat} (last : Option Nat) (atTop : Bool)
    {readOne : ReadOne} {callsOne : CallsOne}
    (hone : ∀ siblings node start current p, s.tree.Below origin node →
      Advance s node p (callsOne siblings node start current p)
        (readOne siblings node start current p)) :
    ∀ (fuel node : Nat) (below : Below) (p : Progress), s.tree.Below origin node →
      s.tree.nodes.size ≤ fuel + node →
      RowAdvance s origin node p (rowCalls s origin last atTop readOne callsOne fuel node below p)
        (readRow s origin last atTop readOne fuel node below p)
  | 0, node, _, _, hnode, hfuel => by
    have hsize := SyntaxTree.Preordered.lt_size_of_below hnode
    omega
  | fuel + 1, node, below, p, hnode, hfuel => by
    obtain ⟨hwithin, hle⟩ := enterBody_preordered ht hnode
    have hadvance := hone (siblingNames below.children) _ below.stop below.span p hwithin
    rw [rowCalls, readRow_eq]
    dsimp only
    generalize enterBody s.tree node = start at hwithin hle hadvance ⊢
    generalize callsOne (siblingNames below.children) start below.stop below.span p = came
      at hadvance ⊢
    -- what this block comes to lies within the origin, from the node of the row on
    have hcame : ∀ v ∈ came, s.tree.Below origin v ∧ node ≤ v := by
      intro v hv
      rcases hadvance.within v hv with rfl | hbelow
      · exact ⟨hwithin, hle⟩
      · have := ht.lt_of_below hbelow
        exact ⟨hwithin.trans hbelow, by omega⟩
    cases hread : readOne (siblingNames below.children) start below.stop below.span p with
    | error e =>
      dsimp only
      rw [List.append_nil]
      refine ⟨hadvance.increasing, hcame, hadvance.ends.hand_on hread, ?_, ?_⟩
      · intro found l q h
        exact absurd h (by simp)
      · intro found n q h
        exact absurd h (by simp)
    | ok result =>
      obtain ⟨read, q⟩ := result
      dsimp only
      have hvisited : (q.noting atTop read.block).visited = p.visited ++ came := by
        rw [(noting_same _ _ _).visited, hadvance.visited read q hread]
      have hpassed := hadvance.passed read q hread
      obtain ⟨hstopped, hfurther⟩ :
          s.tree.Below origin (read.last.getD start) ∧ node ≤ read.last.getD start := by
        cases hl : read.last with
        | none => exact ⟨hwithin, hle⟩
        | some l =>
          have hbelow := hadvance.stopped read q hread l hl
          have := ht.lt_of_below hbelow
          exact ⟨hwithin.trans hbelow, by dsimp only [Option.getD]; omega⟩
      generalize read.last.getD start = node' at hpassed hstopped hfurther ⊢
      by_cases heq : some node' = last
      · -- the row stops at its last node
        rw [if_pos heq, if_pos heq, List.append_nil]
        refine ⟨hadvance.increasing, hcame, Ends.ok _, ?_, ?_⟩
        · intro found l q' h
          obtain ⟨-, rfl⟩ := Prod.mk.inj (Except.ok.inj h)
          exact hvisited
        · intro found n q' h
          obtain ⟨hfound, -⟩ := Prod.mk.inj (Except.ok.inj h)
          obtain rfl : node' = n := Option.some.inj (Prod.mk.inj hfound).2
          exact ⟨hstopped, hfurther, hpassed⟩
      · rw [if_neg heq, if_neg heq]
        rcases following_preordered ht hstopped with hnone | ⟨next, hnext, hbelow, hbehind⟩
        · -- nothing of the origin is left
          rw [hnone]
          dsimp only
          rw [List.append_nil]
          refine ⟨hadvance.increasing, hcame, Ends.ok _, ?_, ?_⟩
          · intro found l q' h
            obtain ⟨-, rfl⟩ := Prod.mk.inj (Except.ok.inj h)
            exact hvisited
          · intro found n q' h
            obtain ⟨hfound, -⟩ := Prod.mk.inj (Except.ok.inj h)
            exact absurd (Prod.mk.inj hfound).2 (by simp)
        · -- the row goes on behind everything that this block has come to
          rw [hnext]
          dsimp only
          have hlater : ∀ v ∈ came, v < next := fun v hv => hbehind v (hpassed v hv)
          have hlt : node < next := by
            have := hbehind node' (.inl (Nat.le_refl node'))
            omega
          have hrest := rowCalls_advance ht last atTop hone fuel next
            (below.after s (q.noting atTop read.block) read node') (q.noting atTop read.block) hbelow
            (by omega)
          exact hrest.after hadvance.increasing hcame hvisited hlt hlater

/-- The blocks below a block move on within its node. -/
theorem belowCalls_advance (ht : s.tree.Preordered) {m : Meaning} {node : Nat}
    (hm : m.Nested s.tree node) (atTop : Bool) {readOne : ReadOne} {callsOne : CallsOne}
    (hone : ∀ siblings child start current p, s.tree.Below node child →
      Advance s child p (callsOne siblings child start current p)
        (readOne siblings child start current p)) (span : Option Nat) (p : Progress) :
    RowAdvance s node node p (belowCalls s m node atTop readOne callsOne span p)
      (readBelow s m node atTop readOne span p) := by
  unfold belowCalls readBelow
  cases hf : m.firstChild with
  | none =>
    refine ⟨List.Pairwise.nil, ?_, Ends.ok _, ?_, ?_⟩
    · intro v hv
      exact absurd hv (by simp)
    · intro found l q h
      obtain ⟨-, rfl⟩ := pure_ok.mp h
      exact (List.append_nil _).symm
    · intro found n q h
      obtain ⟨hfound, -⟩ := pure_ok.mp h
      exact absurd (Prod.mk.inj hfound).2 (by simp)
  | some first =>
    dsimp only
    have hanswers : ∀ v, s.tree.Below (m.checked.getD node) v → s.tree.Below node v := by
      intro v hv
      rcases hm.answers with heq | hbelow
      · rw [heq] at hv
        exact hv
      · exact hbelow.trans hv
    have hrow := rowCalls_advance ht m.lastChild atTop
      (fun siblings child start current p hchild =>
        hone siblings child start current p (hanswers child hchild))
      (s.tree.nodes.size + 1) first { span, stop := s.tree.endBefore node first } p
      (hm.first first hf) (by omega)
    refine ⟨hrow.increasing, ?_, hrow.ends, hrow.visited, ?_⟩
    · intro v hv
      have hbelow := hanswers v (hrow.within v hv).1
      exact ⟨hbelow, Nat.le_of_lt (ht.lt_of_below hbelow)⟩
    · intro found n q h
      obtain ⟨hn, -, hpassed⟩ := hrow.stopped found n q h
      exact ⟨hanswers n hn, Nat.le_of_lt (ht.lt_of_below (hanswers n hn)), hpassed⟩

/-! ## §6. A block and a module move on. -/

theorem bind_ends {x : Reading α} {f : α → Reading β} (hx : Ends (x p))
    (hf : ∀ a r, x p = .ok (a, r) → Ends (f a r)) : Ends ((x >>= f) p) :=
  Ends.bind hx fun ar har => hf ar.1 ar.2 har

theorem lift_bind_ends {x : Outcome α} {f : α → Reading β} (hx : Ends x)
    (hf : ∀ a, x = .ok a → Ends (f a p)) : Ends ((liftM x >>= f : Reading β) p) := by
  rw [lift_bind]
  cases hvalue : x with
  | error e => exact hx.hand_on hvalue
  | ok a => exact hf a hvalue

/-- A step that always succeeds and makes no block. -/
def Keeps (x : Reading α) : Prop :=
  ∀ p, ∃ a q, x p = .ok (a, q) ∧ SameBlocks p q

theorem Keeps.same {x : Reading α} (hx : Keeps x) {a : α} (h : x p = .ok (a, q)) :
    SameBlocks p q := by
  obtain ⟨a', q', hok, hsame⟩ := hx p
  rw [h] at hok
  rw [(Prod.mk.inj (Except.ok.inj hok)).2]
  exact hsame

/-- Such a step with whatever follows it. -/
theorem Keeps.followed {x : Reading α} (hx : Keeps x) {f : α → Reading β}
    {Post : β → Progress → Prop} (p : Progress)
    (hf : ∀ a q, SameBlocks p q → ∃ b r, f a q = .ok (b, r) ∧ Post b r) :
    ∃ b r, (x >>= f) p = .ok (b, r) ∧ Post b r := by
  obtain ⟨a, q, hok, hsame⟩ := hx p
  obtain ⟨b, r, hb, hpost⟩ := hf a q hsame
  exact ⟨b, r, bind_ok.mpr ⟨a, q, hok, hb⟩, hpost⟩

theorem enterBlock_keeps (current : Option Nat) (b : NewBlock) : Keeps (enterBlock s current b) := by
  intro p
  unfold enterBlock
  rw [get_bind_eq]
  split
  · exact ⟨_, _, rfl, rfl, rfl⟩
  · exact ⟨_, _, rfl, rfl, rfl⟩

theorem recordNames_keeps (id : Nat) (path : Path) (relationships : List Relationship) :
    Keeps (recordNames id path relationships) :=
  fun _ => ⟨_, _, rfl, rfl, rfl⟩

theorem index_keeps (path : Path) : Keeps (index path) :=
  fun _ => ⟨_, _, rfl, rfl, rfl⟩

theorem settleRest_keeps (id : Nat) (span : Option Nat) : Keeps (settleRest id span) := by
  intro p
  unfold settleRest
  cases span with
  | none => exact ⟨_, _, rfl, rfl, rfl⟩
  | some n => exact ⟨_, _, rfl, rfl, rfl⟩

theorem finish_keeps (above : List OpenBlock) (d : BlockData) (id : Nat) (children : List Block) :
    Keeps (finish s above d id children) := by
  intro p
  unfold finish
  split
  · rw [get_bind_eq, modify_if]
    refine ⟨_, _, rfl, ?_⟩
    split <;> exact ⟨rfl, rfl⟩
  · exact ⟨_, _, rfl, rfl, rfl⟩

/-- Closing a block keeps the node at which it stopped. -/
theorem closing_keeps (above : List OpenBlock) (d : BlockData) (id : Nat) (own : Option Nat)
    (result : Below × Option Nat) (p : Progress) :
    ∃ read q, closing s above d id own result p = .ok (read, q) ∧ SameBlocks p q
      ∧ read.last = result.2 := by
  unfold closing
  apply (settleRest_keeps id result.1.span).followed
  intro waited p₁ hsettle
  rw [get_bind_eq]
  apply (finish_keeps above _ id result.1.children).followed
  intro finished p₂ hfinish
  exact ⟨_, _, rfl, hsettle.trans (hfinish.trans ⟨rfl, rfl⟩), rfl⟩

/-- Opening a block ends, and makes the node into a block if it succeeds. -/
theorem opening_advance (ht : s.tree.Preordered)
    (hdescending : Descending s.tree s.captures s.dialect.queries) (htweaked : s.tweaked = false)
    (above : List OpenBlock) (siblings : List (BlockKind × Option String)) (node : Nat) (start : Int)
    (current : Option Nat) (p : Progress) :
    Ends (opening s above siblings node start current p)
    ∧ ∀ m d span own q, opening s above siblings node start current p = .ok ((m, d, span, own), q) →
      m.Nested s.tree node ∧ q.visited = p.visited ++ [node] := by
  unfold opening
  rw [htweaked]
  constructor
  · apply lift_bind_ends (Meaning.ofNode_ends ht hdescending)
    intro m _
    apply lift_bind_ends (blockData_ends s m node start)
    intro raw _
    apply lift_bind_ends (namedData_ends s m siblings raw)
    intro d _
    rw [begin_bind_eq]
    obtain ⟨span, q, hspan, -⟩ := enterBlock_keeps (s := s) current
      (newBlock d p.visited.length above) (p.begun node)
    apply bind_ends
    · rw [hspan]
      exact Ends.ok _
    · intro span' q' _
      exact Ends.ok _
  · intro m d span own q h
    rw [lift_bind_ok] at h
    obtain ⟨m', hm, h⟩ := h
    rw [lift_bind_ok] at h
    obtain ⟨raw, -, h⟩ := h
    rw [lift_bind_ok] at h
    obtain ⟨d', -, h⟩ := h
    rw [begin_bind_ok, bind_ok] at h
    obtain ⟨span', q', hspan, h⟩ := h
    have hvisited := ((enterBlock_keeps current _).same hspan).visited
    rw [bind_ok] at h
    obtain ⟨_, q₁, hnames, h⟩ := h
    rw [get_bind_ok, pure_ok] at h
    obtain ⟨hresult, rfl⟩ := h
    obtain ⟨rfl, -⟩ := Prod.mk.inj hresult
    obtain ⟨-, rfl⟩ := Prod.mk.inj (Except.ok.inj hnames)
    exact ⟨Meaning.ofNode_nested hdescending hm, hvisited⟩

theorem bind_of_error {x : Reading α} {f : α → Reading β} {e : Failure} (h : x p = .error e) :
    (x >>= f) p = .error e := by
  show (x p >>= fun ar => f ar.1 ar.2) = _
  rw [h]
  rfl

theorem bind_of_ok {x : Reading α} {f : α → Reading β} {a : α} (h : x p = .ok (a, q)) :
    (x >>= f) p = f a q := by
  show (x p >>= fun ar => f ar.1 ar.2) = _
  rw [h]
  rfl

/-- **Reading a node moves on**, whatever lies below it. -/
theorem nodeCalls_advance (ht : s.tree.Preordered)
    (hdescending : Descending s.tree s.captures s.dialect.queries) (htweaked : s.tweaked = false) :
    ∀ (fuel : Nat) (above : List OpenBlock) (siblings : List (BlockKind × Option String))
      (node : Nat) (start : Int) (current : Option Nat) (p : Progress),
      node < s.tree.nodes.size → s.tree.nodes.size ≤ fuel + node →
      Advance s node p (nodeCalls s fuel above siblings node start current p)
        (readNode s fuel above siblings node start current p)
  | 0, _, _, node, _, _, _, hnode, hfuel => by omega
  | fuel + 1, above, siblings, node, start, current, p, hnode, hfuel => by
    obtain ⟨hends, hopened⟩ :=
      opening_advance ht hdescending htweaked above siblings node start current p
    rw [nodeCalls, readNode_eq]
    cases hopen : opening s above siblings node start current p with
    | error e =>
      rw [bind_of_error hopen]
      exact Advance.failed (hends.hand_on hopen)
    | ok result =>
      obtain ⟨⟨m, d, span, own⟩, q⟩ := result
      obtain ⟨hnested, hbegun⟩ := hopened m d span own q hopen
      rw [bind_of_ok hopen]
      dsimp only
      generalize hinner : openBlock d p.visited.length above :: above = inner
      have hrow := belowCalls_advance ht hnested false
        (fun siblings child start current p hchild => by
          have hlt := ht.lt_of_below hchild
          exact nodeCalls_advance ht hdescending htweaked fuel inner siblings child start current p
            (SyntaxTree.Preordered.lt_size_of_below hchild) (by omega)) span q
      generalize belowCalls s m node false (readNode s fuel inner) (nodeCalls s fuel inner) span q
        = came at hrow ⊢
      -- what is left of a block after those below it cannot fail, and reads nothing
      have hclosed : ∀ read r, (readBelow s m node false (readNode s fuel inner) span
          >>= closing s above d p.visited.length own) q = .ok (read, r) →
          r.visited = p.visited ++ node :: came
          ∧ ∀ n, read.last = some n →
            s.tree.Below node n ∧ node ≤ n ∧ ∀ v ∈ came, s.tree.Passed n v := by
        intro read r h
        obtain ⟨⟨found, l⟩, q', hbelow, hclosing⟩ := bind_ok.mp h
        obtain ⟨read', r', hclosing', hsame, hlast⟩ :=
          closing_keeps (s := s) above d p.visited.length own (found, l) q'
        rw [hclosing] at hclosing'
        obtain ⟨rfl, rfl⟩ := Prod.mk.inj (Except.ok.inj hclosing')
        constructor
        · rw [hsame.visited, hrow.visited found l q' hbelow, hbegun, List.append_assoc]
          rfl
        · intro n hn
          have hln : l = some n := hlast.symm.trans hn
          rw [hln] at hbelow
          exact hrow.stopped found n q' hbelow
      refine ⟨?_, ?_, ?_, fun read r h => (hclosed read r h).1,
        fun read r h n hn => ((hclosed read r h).2 n hn).1, ?_⟩
      · apply List.pairwise_cons.mpr
        refine ⟨?_, hrow.increasing⟩
        intro v hv
        exact ht.lt_of_below (hrow.within v hv).1
      · intro v hv
        rcases List.mem_cons.mp hv with rfl | hv
        · exact .inl rfl
        · exact .inr (hrow.within v hv).1
      · apply bind_ends hrow.ends
        intro found q' _
        obtain ⟨read, r, hclosing, -⟩ :=
          closing_keeps (s := s) above d p.visited.length own found q'
        rw [hclosing]
        exact Ends.ok _
      · intro read r h v hv
        cases hl : read.last with
        | none =>
          rcases List.mem_cons.mp hv with rfl | hv
          · exact .inl (Nat.le_refl v)
          · exact .inr (hrow.within v hv).1
        | some n =>
          obtain ⟨-, hle, hpassed⟩ := (hclosed read r h).2 n hl
          rcases List.mem_cons.mp hv with rfl | hv
          · exact .inl hle
          · exact hpassed v hv

/-- Opening a module ends, and makes the root into a block if it succeeds. -/
theorem openingRoot_advance (ht : s.tree.Preordered)
    (hdescending : Descending s.tree s.captures s.dialect.queries) (htweaked : s.tweaked = false)
    (p : Progress) :
    Ends (openingRoot s p)
    ∧ ∀ m raw d q, openingRoot s p = .ok ((m, raw, d), q) →
      m.Nested s.tree 0 ∧ q.visited = p.visited ++ [0] := by
  unfold openingRoot
  rw [htweaked]
  constructor
  · apply lift_bind_ends (Meaning.ofNode_ends ht hdescending)
    intro m _
    apply lift_bind_ends (blockData_ends s m 0 0)
    intro raw _
    rw [begin_bind_eq]
    apply lift_bind_ends (make_ends (moduleData raw))
    intro d _
    exact Ends.ok _
  · intro m raw d q h
    rw [lift_bind_ok] at h
    obtain ⟨m', hm, h⟩ := h
    rw [lift_bind_ok] at h
    obtain ⟨raw', -, h⟩ := h
    rw [begin_bind_ok, lift_bind_ok] at h
    obtain ⟨d', -, h⟩ := h
    obtain ⟨hresult, rfl⟩ := pure_ok.mp h
    obtain ⟨rfl, -⟩ := Prod.mk.inj hresult
    exact ⟨Meaning.ofNode_nested hdescending hm, rfl⟩

/-- Closing a module ends and makes no node into a block; it may fail at the text behind the last
block. -/
theorem closingRoot_keeps (raw d : BlockData) (id : Nat) (result : Below × Option Nat)
    (p : Progress) :
    Ends (closingRoot s raw d id result p)
    ∧ ∀ root q, closingRoot s raw d id result p = .ok (root, q) → q.visited = p.visited := by
  unfold closingRoot
  obtain ⟨⟨final, children⟩, p₁, hfinish, hsame⟩ :=
    finish_keeps (s := s) [] { d with
      spanIds := result.1.children.foldl (fun ids c => Assoc.union ids c.info.spanIds) [] } id
      result.1.children p
  rw [bind_of_ok hfinish]
  dsimp only
  rw [index_bind_eq]
  split
  · constructor
    · apply lift_bind_ends (cut_ends _ _ _)
      intro gap _
      apply lift_bind_ends (make_ends (spaceData raw gap))
      intro space _
      exact Ends.ok _
    · intro root q h
      rw [lift_bind_ok] at h
      obtain ⟨gap, -, h⟩ := h
      rw [lift_bind_ok] at h
      obtain ⟨space, -, h⟩ := h
      rw [get_bind_ok] at h
      obtain ⟨-, rfl⟩ := pure_ok.mp h
      exact hsame.visited
  · constructor
    · exact Ends.ok _
    · intro root q h
      obtain ⟨-, rfl⟩ := pure_ok.mp h
      exact hsame.visited

/-- **Reading a module moves on**, from the root to the end. -/
theorem calls_advance (ht : s.tree.Preordered)
    (hdescending : Descending s.tree s.captures s.dialect.queries) (htweaked : s.tweaked = false) :
    (calls s).Pairwise (· < ·) ∧ Ends (readRoot s {})
    ∧ ∀ root q, readRoot s {} = .ok (root, q) → q.visited = calls s := by
  obtain ⟨hends, hopened⟩ := openingRoot_advance ht hdescending htweaked {}
  rw [calls, readRoot_eq]
  cases hopen : openingRoot s {} with
  | error e =>
    rw [bind_of_error hopen]
    refine ⟨List.pairwise_singleton _ _, hends.hand_on hopen, ?_⟩
    intro root q h
    exact absurd h (by simp)
  | ok result =>
    obtain ⟨⟨m, raw, d⟩, q⟩ := result
    obtain ⟨hnested, hbegun⟩ := hopened m raw d q hopen
    rw [bind_of_ok hopen]
    dsimp only
    have hrow := belowCalls_advance ht hnested true
      (fun siblings child start current p hchild => by
        exact nodeCalls_advance ht hdescending htweaked (s.tree.nodes.size + 1) [openModule 0]
          siblings child start current p (SyntaxTree.Preordered.lt_size_of_below hchild)
          (by omega)) none q
    refine ⟨?_, ?_, ?_⟩
    · apply List.pairwise_cons.mpr
      refine ⟨?_, hrow.increasing⟩
      intro v hv
      exact ht.lt_of_below (hrow.within v hv).1
    · apply bind_ends hrow.ends
      intro result q' _
      exact (closingRoot_keeps raw d _ result q').1
    · intro root r h
      obtain ⟨⟨found, l⟩, q', hbelow, hclosing⟩ := bind_ok.mp h
      rw [(closingRoot_keeps raw d _ (found, l) q').2 root r hclosing,
        hrow.visited found l q' hbelow, hbegun]
      rfl

end Parse

end CodeAtlas

import CodeAtlas.Proofs.Block.Preorder
import CodeAtlas.Proofs.Parse.Calls

/-!
# Blocks and the nodes they were made of

Reading numbers the blocks as it makes them, and it makes them in document order: the blocks of a
module, from its root on, have the numbers 0, 1, 2 and so on, and each says of itself what the node
of its number made it say.  Only the block for the blanks at the end stands for no node.

What a block says of its node is left open (`Represents`), since nothing but the data that a node
makes, and how they are named and finished, matters to it.

Main results:
  * `readRoot_numbered`: the blocks of a module are numbered, and linked one behind the other, in
    document order;
  * `parse_advances`: reading comes to the nodes one behind the other, so it ends, and no node is made
    into two blocks.
-/

namespace CodeAtlas.Parse

open Block
open Outcome (Ends)

variable {s : Setting} {R : Nat → BlockInfo → Prop} {p q r : Progress}

/-! ## §1. Rows of numbered blocks. -/

/-- Between two points of reading just these blocks were made, in this order, and linked one behind the
other; each is related to the node that it was made of. -/
def Numbered (R : Nat → BlockInfo → Prop) (p q : Progress) (blocks : List Block) : Prop :=
  ∃ nodes, q.visited = p.visited ++ nodes
    ∧ blocks.map (fun b => b.info.id) = List.range' p.visited.length nodes.length
    ∧ q.linked = p.linked ++ blocks.map (fun b => b.info.id)
    ∧ List.Forall₂ R nodes (blocks.map (·.info))

theorem Numbered.nil (p : Progress) : Numbered R p p [] :=
  ⟨[], (List.append_nil _).symm, rfl, (List.append_nil _).symm, .nil⟩

theorem Numbered.append {xs ys : List Block} (hxs : Numbered R p q xs) (hys : Numbered R q r ys) :
    Numbered R p r (xs ++ ys) := by
  obtain ⟨first, hfirst, hids, hlinked, hrelated⟩ := hxs
  obtain ⟨second, hsecond, hids', hlinked', hrelated'⟩ := hys
  refine ⟨first ++ second, ?_, ?_, ?_, ?_⟩
  · rw [hsecond, hfirst, List.append_assoc]
  · rw [List.map_append, hids, hids', hfirst, List.length_append, List.length_append,
      List.range'_append_1]
  · rw [hlinked', hlinked, List.map_append, List.append_assoc]
  · rw [List.map_append]
    exact List.rel_append hrelated hrelated'

/-- Where reading has made no further block, those made so far are still all. -/
theorem Numbered.keep {xs : List Block} (h : Numbered R p q xs) (hr : SameBlocks q r) :
    Numbered R p r xs := by
  obtain ⟨nodes, hnodes, hids, hlinked, hrelated⟩ := h
  exact ⟨nodes, hr.visited.trans hnodes, hids, hr.linked.trans hlinked, hrelated⟩

/-- A block that was made stands for the node of its number. -/
theorem Numbered.node_of {xs : List Block} (h : Numbered R p q xs) {b : Block} (hb : b ∈ xs) :
    ∃ node, q.visited[b.info.id]? = some node ∧ R node b.info := by
  obtain ⟨nodes, hnodes, hids, -, hrelated⟩ := h
  obtain ⟨i, hi, rfl⟩ := List.mem_iff_getElem.mp hb
  have hinfo : i < (xs.map (·.info)).length := by rw [List.length_map]; exact hi
  have hlt : i < nodes.length := hrelated.length_eq ▸ hinfo
  have hid : xs[i].info.id = p.visited.length + i := by
    have hget : (xs.map fun b => b.info.id)[i]? = some xs[i].info.id := by
      rw [List.getElem?_map, List.getElem?_eq_getElem hi]
      rfl
    rw [hids, List.getElem?_range' hlt, Option.some.injEq] at hget
    omega
  refine ⟨nodes[i], ?_, ?_⟩
  · rw [hnodes, hid, List.getElem?_append_right (by omega), Nat.add_sub_cancel_left]
    exact List.getElem?_eq_getElem hlt
  · have hrel := hrelated.get hlt hinfo
    rw [List.get_eq_getElem, List.get_eq_getElem, List.getElem_map] at hrel
    exact hrel

/-! ## §2. Reading numbers the blocks in document order. -/

/-- A relation that holds between a node and the block that it is made into, whatever mistakes are
noted at the block later. -/
structure Represents (s : Setting) (R : Nat → BlockInfo → Prop) : Prop where
  made : ∀ m node start raw siblings d above spanIds id children p final refined q path,
    Meaning.ofNode s.tree s.captures s.dialect s.tweaked node = .ok m →
    blockData s m node start = .ok raw →
    namedData s m siblings raw = .ok d →
    finish s above { d with spanIds } id children p = .ok ((final, refined), q) →
    R node { final with id, path }
  noted : ∀ node info errors, R node info → R node { info with errors }

theorem finish_numbered (hR : Represents s R) {above : List OpenBlock} {d final : BlockData}
    {id : Nat} {children refined : List Block} {p₁ p₂ : Progress}
    (h : finish s above d id children p₁ = .ok ((final, refined), p₂))
    (hchildren : Numbered R p q (preorderAll children)) : Numbered R p q (preorderAll refined) := by
  rcases (finish_changes h).2 with rfl | rfl
  · exact hchildren
  · obtain ⟨nodes, hnodes, hids, hlinked, hrelated⟩ := hchildren
    have hnumbers : (preorderAll (Refine.markAllRepeats children)).map (fun b => b.info.id)
        = (preorderAll children).map fun b => b.info.id :=
      Refine.map_preorderAll_markAllRepeats (f := fun info => info.id) (fun _ _ => rfl) children
    refine ⟨nodes, hnodes, hnumbers.trans hids, ?_, ?_⟩
    · rw [hnumbers]
      exact hlinked
    · -- the relation does not see the mistakes, so that it may look at blocks without any
      have hbare : ∀ node info, R node { info with errors := [] } ↔ R node info := by
        intro node info
        constructor
        · intro hrel
          have hback := hR.noted node { info with errors := [] } info.errors hrel
          exact hback
        · exact hR.noted node info []
      have hsame := Refine.map_preorderAll_markAllRepeats
        (f := fun info => { info with errors := [] }) (fun _ _ => rfl) children
      have hold : List.Forall₂ R nodes ((preorderAll children).map fun b =>
          { b.info with errors := [] }) := by
        rw [List.forall₂_map_right_iff] at hrelated ⊢
        exact hrelated.imp fun node b hrel => (hbare node b.info).mpr hrel
      rw [← hsame] at hold
      rw [List.forall₂_map_right_iff] at hold ⊢
      exact hold.imp fun node b hrel => (hbare node b.info).mp hrel

/-- A way to read one block numbers what it makes. -/
def Numbers (R : Nat → BlockInfo → Prop) (readOne : ReadOne) : Prop :=
  ∀ siblings node start current p read q, readOne siblings node start current p = .ok (read, q) →
    Numbered R p q read.block.preorder

theorem readBelow_numbered {readOne : ReadOne} (hone : Numbers R readOne) {m : Meaning} {node : Nat}
    {atTop : Bool} {span last : Option Nat} {below : Below}
    (h : readBelow s m node atTop readOne span p = .ok ((below, last), q)) :
    Numbered R p q (preorderAll below.children) := by
  refine readBelow_rule (fun below q => Numbered R p q (preorderAll below.children)) ?_ ?_ h
  · intro stop
    exact Numbered.nil p
  · intro node below p' read q' hrow hread
    show Numbered R p (q'.noting atTop read.block) (preorderAll (below.children ++ [read.block]))
    rw [preorderAll_append, preorderAll, preorderAll, List.append_nil]
    exact (hrow.append (hone _ _ _ _ _ _ _ hread)).keep (noting_same _ _ _)

/-- **Reading a node numbers the block of the node and then those below it.** -/
theorem readNode_numbers (hR : Represents s R) :
    ∀ (fuel : Nat) (above : List OpenBlock), Numbers R (readNode s fuel above)
  | 0, _ => by
    intro siblings node start current p read q h
    exact absurd h not_throw_ok
  | fuel + 1, above => by
    intro siblings node start current p read q h
    obtain ⟨depth, m, raw, d, span, below, waited, spanIds, final, children, p₁, p₂, p₃, p₄, p₅,
      hdepth, hm, hraw, hd, henter, hnames, hbelow, hsettle, hfinish, hindex, -, hblock⟩ :=
      readNode_ok h
    obtain rfl : fuel = depth := by omega
    have hbegun : SameBlocks (p.begun node) p₂ :=
      ((enterBlock_keeps current _).same henter).trans ((recordNames_keeps _ _ _).same hnames)
    have hended : SameBlocks p₃ q :=
      ((settleRest_keeps _ below.span).same hsettle).trans
        (((finish_keeps above _ _ _).same hfinish).trans ((index_keeps _).same hindex))
    -- the block itself takes the first number, behind the block made last, and those below it the
    -- next ones
    have hself : Numbered R p p₂ [read.block] := by
      refine ⟨[node], hbegun.visited, ?_, ?_, .cons ?_ .nil⟩
      · rw [hblock]
        rfl
      · rw [hblock]
        exact hbegun.linked
      · rw [hblock]
        exact hR.made _ _ _ _ _ _ _ _ _ _ _ _ _ _ _ hm hraw hd hfinish
    have hrest := finish_numbered hR hfinish (readBelow_numbered (readNode_numbers hR fuel _) hbelow)
    have hall := (hself.append hrest).keep hended
    rw [preorder_eq]
    rw [hblock] at hall ⊢
    exact hall

/-- **The blocks below a module are numbered from 1 on**; only the one for the blanks at its end, if
there is one, stands for no node. -/
theorem readRoot_numbered (hR : Represents s R) {root : Block} (h : readRoot s {} = .ok (root, q)) :
    ∃ made trailing, root.descendants = made ++ trailing
      ∧ Numbered R (Progress.begun {} 0) q made ∧ root.info.id = 0
      ∧ (trailing = [] ∨ ∃ raw gap space, (spaceData raw gap).make = .ok space
          ∧ trailing = [⟨{ space with id := q.visited.length, path := [] }, []⟩]) := by
  obtain ⟨m, raw, d, below, last, spanIds, final, children, p₁, p₂, -, -, -, hbelow, hfinish, hindex,
    hend⟩ := readRoot_ok h
  have hended : SameBlocks p₁ q :=
    ((finish_keeps [] _ _ _).same hfinish).trans ((index_keeps _).same hindex)
  have hall := (finish_numbered hR hfinish
    (readBelow_numbered (readNode_numbers hR _ _) hbelow)).keep hended
  rcases hend with ⟨-, gap, space, -, hspace, rfl⟩ | ⟨-, rfl⟩
  · refine ⟨preorderAll children, [⟨{ space with id := q.visited.length, path := [] }, []⟩], ?_, hall,
      rfl, .inr ⟨raw, gap, space, hspace, rfl⟩⟩
    rw [descendants, preorderAll_append]
    rfl
  · exact ⟨preorderAll children, [], (List.append_nil _).symm, hall, rfl, .inl rfl⟩

/-! ## §3. The blocks of a module. -/

/-- What a block shows of the node that it was made of: its rows, and the kind of the node. -/
def nodeMark (d : BlockData) : Int × Int × Option Json :=
  (d.startLine, d.endLine, Assoc.get? "tree_sitter_type" d.properties)

/-- What the block of a node is to show. -/
def markOf (tree : SyntaxTree) (node : Nat) : Int × Int × Option Json :=
  ((tree.startRow node + 1 : Nat), (tree.stopRow node + 1 : Nat), some (.str (tree.kind node)))

theorem blockData_mark {m : Meaning} {node : Nat} {start : Int} {raw : BlockData}
    (h : blockData s m node start = .ok raw) : nodeMark raw = markOf s.tree node := by
  unfold blockData at h
  simp only [Outcome.bind_ok] at h
  obtain ⟨gap, -, content, -, name, -, references, -, parameters, -, hraw⟩ := h
  rw [← Except.ok.inj hraw]
  rfl

/-- Blocks show the nodes that they are made of. -/
theorem represents_mark (s : Setting) :
    Represents s fun node info => nodeMark info.toBlockData = markOf s.tree node := by
  constructor
  · intro m node start raw siblings d above spanIds id children p final refined q path _ hraw hd
      hfinish
    rw [← blockData_mark hraw]
    obtain ⟨kind, name, gapLines, indentation, lines, rfl⟩ := namedData_changes hd
    obtain ⟨⟨kind', relationships, rfl⟩, -⟩ := finish_changes hfinish
    rfl
  · intro node info errors hmark
    exact hmark

/-- So does the module. -/
theorem readRoot_mark {root : Block} (h : readRoot s p = .ok (root, q)) :
    nodeMark root.info.toBlockData = markOf s.tree 0 := by
  obtain ⟨m, raw, d, below, last, spanIds, final, children, p₁, p₂, -, hraw, hd, -, hfinish, -,
    hend⟩ := readRoot_ok h
  have hfinal : nodeMark final = markOf s.tree 0 := by
    rw [← blockData_mark hraw]
    obtain ⟨gapLines, indentation, lines, rfl⟩ := make_changes hd
    obtain ⟨⟨kind, relationships, rfl⟩, -⟩ := finish_changes hfinish
    rfl
  rcases hend with ⟨-, gap, space, -, -, rfl⟩ | ⟨-, rfl⟩
  · exact hfinal
  · exact hfinal

/-- Each block of a module has got the span of its number, and is else as it was read. -/
theorem infos_descendants_assignSpans (root : Block) (spanOf : Nat → Option Span) :
    (root.assignSpans spanOf).descendants.map (·.info)
      = root.descendants.map fun b => { b.info with span := spanOf b.info.id } := by
  obtain ⟨info, children⟩ := root
  rw [assignSpans]
  exact infos_assignSpansAll _ _

/-- **Reading always moves on.**  Where the captures lead downwards, the nodes that reading comes to
follow each other in document order, so that reading ends; and each block of the module stands for
the node of its number, so that no node has been made into two. -/
theorem parse_advances (s : Setting) (ht : s.tree.Preordered)
    (hdescending : Descending s.tree s.captures s.dialect.queries) (htweaked : s.tweaked = false) :
    (calls s).Pairwise (· < ·)
    ∧ parse s ≠ .error .endless
    ∧ ∀ module, parse s = .ok module →
      module.visited = calls s
      ∧ ∃ made trailing, module.root.preorder = made ++ trailing
        ∧ made.map (fun b => b.info.id) = List.range (calls s).length
        ∧ made.map (fun b => nodeMark b.info.toBlockData) = (calls s).map (markOf s.tree)
        ∧ (trailing = [] ∨ ∃ space, trailing = [space] ∧ space.info.kind = .space
            ∧ space.info.id = (calls s).length) := by
  obtain ⟨hincreasing, hends, hvisited⟩ := calls_advance ht hdescending htweaked
  refine ⟨hincreasing, ?_, ?_⟩
  · unfold parse
    exact Ends.bind hends fun _ _ => Ends.ok _
  · intro module hmodule
    obtain ⟨root, p, hroot, rfl⟩ := parse_ok hmodule
    have hcalls := hvisited root p hroot
    refine ⟨hcalls, ?_⟩
    obtain ⟨made, trailing, hsplit, ⟨nodes, hnodes, hids, -, hmarks⟩, hid, htrailing⟩ :=
      readRoot_numbered (represents_mark s) hroot
    have hzero := readRoot_mark hroot
    rw [hcalls] at hnodes
    -- giving out spans leaves the numbers and the marks as they are
    have hinfos := infos_descendants_assignSpans root p.ledger.spanOfBlock
    rw [hsplit, List.map_append] at hinfos
    obtain ⟨made', trailing', hsplit', hmade, hrest⟩ := List.map_eq_append_iff.mp hinfos
    have hroot' : (root.assignSpans p.ledger.spanOfBlock).info.id = 0
        ∧ nodeMark (root.assignSpans p.ledger.spanOfBlock).info.toBlockData = markOf s.tree 0 := by
      obtain ⟨info, children⟩ := root
      exact ⟨hid, hzero⟩
    refine ⟨root.assignSpans p.ledger.spanOfBlock :: made', trailing', ?_, ?_, ?_, ?_⟩
    · rw [preorder_eq, hsplit', List.cons_append]
    · have hsame := congrArg (List.map fun info : BlockInfo => info.id) hmade
      rw [List.map_map, List.map_map] at hsame
      rw [hnodes, List.map_cons, hroot'.1, List.range_eq_range']
      exact congrArg (List.cons 0) (hsame.trans hids)
    · have hsame := congrArg (List.map fun info : BlockInfo => nodeMark info.toBlockData) hmade
      rw [List.map_map, List.map_map] at hsame
      have hall : nodes.map (markOf s.tree)
          = (made.map (·.info)).map fun info => nodeMark info.toBlockData := by
        rw [← List.forall₂_eq_eq_eq, List.forall₂_map_left_iff, List.forall₂_map_right_iff]
        exact hmarks.imp fun _ _ hmark => hmark.symm
      rw [List.map_map] at hall
      rw [hnodes, List.map_cons, hroot'.2]
      exact congrArg (List.cons (markOf s.tree 0)) (hsame.trans hall.symm)
    · rcases htrailing with rfl | ⟨raw, gap, space, hspace, rfl⟩
      · exact .inl (List.map_eq_nil_iff.mp hrest)
      · obtain ⟨space', rfl, hinfo⟩ := List.map_eq_singleton_iff.mp hrest
        obtain ⟨gapLines, indentation, lines, rfl⟩ := make_changes hspace
        refine .inr ⟨space', rfl, ?_, ?_⟩
        · rw [hinfo]
          rfl
        · rw [hinfo, ← hcalls]

/-- A decorated class whose head ends with a comment: the question about the decoration is handed on
to the class, the blocks of the class begin with the comment, and the class stops after its last
statement, from where the module goes on. -/
def decoratedClass : Setting :=
  { tree :=
      { source := "@d\nclass A: # c\n  x\n".toUTF8
        nodes := #[⟨none, "module", 0, 20⟩, ⟨some 0, "decorated_definition", 0, 19⟩,
          ⟨some 1, "decorator", 0, 2⟩, ⟨some 1, "class_definition", 3, 19⟩,
          ⟨some 3, "class", 3, 8⟩, ⟨some 3, "identifier", 9, 10⟩, ⟨some 3, ":", 10, 11⟩,
          ⟨some 3, "comment", 12, 15⟩, ⟨some 3, "block", 18, 19⟩, ⟨some 8, "identifier", 18, 19⟩] }
    captures :=
      [("python.scm:1", [⟨0, 0, "root"⟩, ⟨0, 1, "child.first"⟩, ⟨0, 1, "definition.module"⟩]),
       ("python.scm:2", [⟨1, 1, "root"⟩, ⟨1, 3, "check_child"⟩]),
       ("python.scm:3", [⟨3, 3, "root"⟩, ⟨3, 5, "identifier"⟩, ⟨3, 7, "child.first"⟩,
         ⟨3, 7, "definition.class"⟩, ⟨3, 9, "child.last"⟩]),
       ("python.scm:6", [⟨7, 7, "root"⟩, ⟨7, 7, "definition.comment"⟩])] }

theorem parse_advances_decoratedClass :
    calls decoratedClass = [0, 1, 7, 9] ∧ (calls decoratedClass).Pairwise (· < ·)
    ∧ ∃ module, parse decoratedClass = .ok module ∧ module.visited = [0, 1, 7, 9] := by
  have ht : decoratedClass.tree.Preordered :=
    SyntaxTree.preordered_of_isPreordered (by decide +kernel)
  have hfaithful : Faithful decoratedClass.tree decoratedClass.captures
      decoratedClass.dialect.queries := faithful_of_isFaithful (by decide +kernel)
  obtain ⟨hincreasing, -, hread⟩ := parse_advances decoratedClass ht hfaithful.toDescending rfl
  have hcalls : calls decoratedClass = [0, 1, 7, 9] := by decide +kernel
  refine ⟨hcalls, hincreasing, ?_⟩
  have hok : (parse decoratedClass).isOk = true := by decide +kernel
  cases hmodule : parse decoratedClass with
  | error e =>
    rw [hmodule] at hok
    exact absurd hok (by simp [Except.isOk, Except.toBool])
  | ok module => exact ⟨module, rfl, (hread module hmodule).1.trans hcalls⟩

end CodeAtlas.Parse

import CodeAtlas.Proofs.Block.Addresses
import CodeAtlas.Proofs.Parse.Numbering

/-!
# The row of linked blocks

While a module is read each new block is linked to the one made before it.  The row that grows from
this is the document order of the module: from the module on, the links lead along the blocks below
it in the order in which a walk through the tree comes to them, and back.  Only the block for the
blanks at the end is no part of the row.

A module is handed on as an outline, in which blocks are numbers.  So the numbers have to be those of
the document order twice: as the order of the links, and as the places of the entries, which the walk
through the outline looks up.  Both are the numbering of `readRoot_numbered`.

Main results:
  * `Outline.threads_links`: links that are a row without repeats lead along it and back;
  * `Outline.infos_unfold`: an outline that shows a tree unfolds to it;
  * `Module.shows_toOutline`: the outline of a module shows its blocks;
  * `parse_linked`: the links of a module are its document order.
-/

namespace CodeAtlas

namespace Block

/-! ## §1. Walks through trees. -/

/-- A block with its number. -/
def numbered (b : Block) : Nat × BlockData :=
  (b.info.id, b.info.toBlockData)

/-- What two trees have in common along their rows, rows of such trees have in common. -/
theorem map_preorderAll_map {β : Type} {f : Block → Block} {g h : Block → β} {bs : List Block}
    (heq : ∀ b ∈ bs, (f b).preorder.map g = b.preorder.map h) :
    (preorderAll (bs.map f)).map g = (preorderAll bs).map h := by
  rw [preorderAll_eq_flatMap, preorderAll_eq_flatMap, List.flatMap_map, List.map_flatMap,
    List.map_flatMap]
  exact List.flatMap_congr heq

/-- A walk that meets nothing but blocks comes to its end. -/
theorem come_of_blocks {member : String} {ends : Block → Bool} {bs : List Block}
    (h : ∀ b ∈ bs, b.info.hurdle = none) : come member ends bs = .ok () := by
  induction bs with
  | nil => rfl
  | cons b bs ih =>
    have hb := h b List.mem_cons_self
    have htouch : b.touch member = .ok () := by rw [touch, hb]
    have henter : b.enter = .ok () := by simp [enter, hb]
    rw [come, htouch, henter, ih fun c hc => h c (List.mem_cons_of_mem _ hc)]
    split <;> rfl

end Block

namespace Outline

open Block (preorder_eq)

variable {o : Outline}

/-! ## §2. Rows of links. -/

/-- From the first block the links lead along the row and, from its end, back.  None of the blocks
stands twice. -/
structure Threads (o : Outline) (first : Nat) (rest : List Nat) : Prop where
  forward : (first :: rest).IsChain fun a b => o.next? a = some b
  ends : o.next? ((first :: rest).getLast (List.cons_ne_nil first rest)) = none
  backward : (first :: rest).IsChain fun a b => o.previous? b = some a
  begins : o.previous? first = none
  once : (first :: rest).Nodup

theorem next?_links (hnodup : o.links.Nodup) {k : Nat} (hk : k < o.links.length) :
    o.next? o.links[k] = o.links[k + 1]? := by
  simp [next?, chainAt, hnodup.idxOf_getElem]

theorem previous?_links (hnodup : o.links.Nodup) {k : Nat} (hk : k + 1 < o.links.length) :
    o.previous? o.links[k + 1] = some o.links[k] := by
  simp [previous?, chainAt, hnodup.idxOf_getElem]

/-- Links that are a row without repeats lead along it and back. -/
theorem threads_links {first : Nat} {rest : List Nat} (hlinks : o.links = first :: rest)
    (hnodup : (first :: rest).Nodup) : o.Threads first rest := by
  have hrow : o.links.Nodup := hlinks ▸ hnodup
  refine ⟨?_, ?_, ?_, ?_, hnodup⟩
  · rw [← hlinks, List.isChain_iff_getElem]
    intro k hk
    rw [next?_links hrow, List.getElem?_eq_getElem hk]
  · simp only [← hlinks]
    rw [List.getLast_eq_getElem, next?_links hrow]
    exact List.getElem?_eq_none (by omega)
  · rw [← hlinks, List.isChain_iff_getElem]
    intro k hk
    exact previous?_links hrow hk
  · simp [previous?, chainAt, hlinks]

/-- A block outside the row has no neighbours. -/
theorem unlinked {i : Nat} (h : i ∉ o.links) : o.next? i = none ∧ o.previous? i = none := by
  simp [next?, previous?, chainAt, h]

/-! ## §3. Outlines of trees. -/

/-- The outline has the data of the block at its number, and the numbers of its children. -/
structure Shows (o : Outline) (b : Block) : Prop where
  data : o.data b.info.id = b.info.toBlockData
  children : o.childrenOf b.info.id = b.children.map fun c => c.info.id
  isBlock : o.thing? b.info.id = none

/-- An outline that shows the blocks of a tree, numbered along the tree, unfolds to the tree.  The
numbers above a block are smaller than its own, so it is not taken for one that lies below itself. -/
theorem infos_unfold_go (b : Block) :
    ∀ {fuel : Nat} {above : List Nat}, b.height < fuel → (∀ c ∈ b.preorder, o.Shows c) →
      (b.preorder.map fun c => c.info.id).Pairwise (· < ·) → (∀ a ∈ above, a < b.info.id) →
      (unfold.go o fuel above b.info.id).preorder.map (·.info)
        = b.preorder.map fun c => o.infoOf c.info.id := by
  induction b using Block.tree_induction with
  | node b ih =>
    intro fuel above hfuel hshows hids habove
    obtain _ | fuel := fuel
    · omega
    have hnew : b.info.id ∉ above := fun hmem => Nat.lt_irrefl _ (habove _ hmem)
    rw [preorder_eq, List.map_cons, List.pairwise_cons] at hids
    have hchild : ∀ c ∈ b.children,
        (unfold.go o fuel (b.info.id :: above) c.info.id).preorder.map (·.info)
          = c.preorder.map fun d => o.infoOf d.info.id := by
      intro c hc
      have hpart : c.preorder.Sublist b.descendants := by
        rw [Block.descendants, Block.preorderAll_eq_flatMap, List.flatMap_def]
        exact List.sublist_flatten_of_mem (List.mem_map_of_mem hc)
      -- so the child has a larger number than the block, and than all that the block is below
      have hbelow : b.info.id < c.info.id :=
        hids.1 _ (List.mem_map_of_mem (hpart.subset c.self_mem_preorder))
      have hlower := Block.height_lt_of_child hc
      refine ih c hc (by omega) ?_ (hids.2.sublist (hpart.map _)) ?_
      · intro d hd
        rw [preorder_eq] at hshows
        exact hshows d (List.mem_cons_of_mem _ (hpart.subset hd))
      · intro a ha
        obtain rfl | ha := List.mem_cons.1 ha
        · exact hbelow
        · exact Nat.lt_trans (habove a ha) hbelow
    have hgo : unfold.go o (fuel + 1) above b.info.id = ⟨o.infoOf b.info.id,
        b.children.map fun c => unfold.go o fuel (b.info.id :: above) c.info.id⟩ := by
      simp [unfold.go, hnew, (hshows b b.self_mem_preorder).children, Function.comp_def]
    rw [hgo, preorder_eq, preorder_eq b, List.map_cons, List.map_cons, Block.descendants,
      Block.descendants, Block.map_preorderAll_map hchild]

theorem infos_unfold {b : Block} (hsize : b.preorder.length ≤ o.entries.size)
    (hshows : ∀ c ∈ b.preorder, o.Shows c)
    (hids : (b.preorder.map fun c => c.info.id).Pairwise (· < ·)) :
    (o.unfold b.info.id).preorder.map (·.info) = b.preorder.map fun c => o.infoOf c.info.id := by
  have hheight := b.height_lt_length_preorder
  exact infos_unfold_go b (by omega) hshows hids fun a ha => by cases ha

/-- All blocks below a block of an outline that shows a tree are those of the tree. -/
theorem numbered_view {b : Block} (hsize : b.preorder.length ≤ o.entries.size)
    (hshows : ∀ c ∈ b.preorder, o.Shows c)
    (hids : (b.preorder.map fun c => c.info.id).Pairwise (· < ·)) (member : String) :
    (o.view b.info.id member).map (fun tree => tree.descendants.map Block.numbered)
      = .ok (b.descendants.map Block.numbered) := by
  have hinfos := infos_unfold hsize hshows hids
  rw [preorder_eq, preorder_eq b, List.map_cons, List.map_cons, List.cons.injEq] at hinfos
  have hbelow : ∀ d ∈ b.descendants, o.Shows d := fun d hd =>
    hshows d (preorder_eq b ▸ List.mem_cons_of_mem _ hd)
  have hhurdles : ∀ c ∈ (o.unfold b.info.id).descendants, c.info.hurdle = none := by
    intro c hc
    have hmem : c.info ∈ b.descendants.map fun d => o.infoOf d.info.id :=
      hinfos.2 ▸ List.mem_map_of_mem hc
    obtain ⟨d, hd, heq⟩ := List.mem_map.1 hmem
    rw [← heq]
    exact hurdle_infoOf (hbelow d hd).isBlock
  have hview : o.view b.info.id member = .ok (o.unfold b.info.id) := by
    rw [view, Block.comeToAll, Block.come_of_blocks hhurdles]
    rfl
  have hnumbered : (o.unfold b.info.id).descendants.map Block.numbered
      = b.descendants.map Block.numbered := by
    calc (o.unfold b.info.id).descendants.map Block.numbered
        = ((o.unfold b.info.id).descendants.map (·.info)).map fun info =>
            (info.id, info.toBlockData) := by rw [List.map_map]; rfl
      _ = b.descendants.map fun d => (d.info.id, o.data d.info.id) := by
        rw [hinfos.2, List.map_map]
        exact List.map_congr_left fun d _ => congrArg (d.info.id, ·) (toBlockData_infoOf d.info.id)
      _ = b.descendants.map Block.numbered :=
        List.map_congr_left fun d hd => congrArg (d.info.id, ·) (hbelow d hd).data
  rw [hview]
  exact congrArg Except.ok hnumbered

end Outline

namespace Parse

open Block

variable {s : Setting}

/-! ## §4. The outline of a module. -/

namespace Module

mutual
/-- The entries of a tree have the data of its blocks, along the tree. -/
theorem map_entries (spanOf : Nat → Option Nat) (parent : Option Nat) : ∀ b : Block,
    (entries spanOf parent b).map (fun e => (e.data, e.children, e.thing))
      = b.preorder.map fun c => (c.info.toBlockData, c.children.map fun d => d.info.id, none)
  | ⟨info, children⟩ => by
    rw [entries, preorder, List.map_cons, List.map_cons,
      map_entriesAll spanOf (some info.id) children]

theorem map_entriesAll (spanOf : Nat → Option Nat) (parent : Option Nat) : ∀ bs : List Block,
    (entriesAll spanOf parent bs).map (fun e => (e.data, e.children, e.thing))
      = (preorderAll bs).map fun c => (c.info.toBlockData, c.children.map fun d => d.info.id, none)
  | [] => rfl
  | b :: bs => by
    rw [entriesAll, preorderAll, List.map_append, List.map_append, map_entries spanOf parent b,
      map_entriesAll spanOf parent bs]
end

/-- The outline of a module whose blocks are numbered in document order shows them. -/
theorem shows_toOutline {m : Module}
    (hids : m.root.preorder.map (fun b => b.info.id) = List.range m.root.preorder.length)
    {b : Block} (hb : b ∈ m.root.preorder) : m.toOutline.Shows b := by
  obtain ⟨k, hk, rfl⟩ := List.getElem_of_mem hb
  -- the number of a block is its place in the tree, and the entry at that place is its own
  have hid : m.root.preorder[k].info.id = k := by
    have hplace := congrArg (·[k]?) hids
    simpa [hk] using hplace
  have hentry := congrArg (·[k]?)
    (map_entries (fun i => Assoc.get? i m.ledger.spanOf) none m.root)
  simp only [List.getElem?_map, List.getElem?_eq_getElem hk, Option.map_some] at hentry
  obtain ⟨e, he, hshown⟩ := Option.map_eq_some_iff.1 hentry
  have hplace : m.toOutline.entries[k]? = some e := by
    rw [toOutline, List.getElem?_toArray, he]
  simp only [Prod.mk.injEq] at hshown
  constructor
  · rw [hid, Outline.data, hplace]
    exact hshown.1
  · rw [hid, Outline.childrenOf, hplace]
    exact hshown.2.1
  · rw [hid, Outline.thing?, hplace]
    exact hshown.2.2

theorem size_toOutline (m : Module) : m.toOutline.entries.size = m.root.preorder.length := by
  have hlength := congrArg List.length
    (map_entries (fun i => Assoc.get? i m.ledger.spanOf) none m.root)
  rw [List.length_map, List.length_map] at hlength
  exact hlength

end Module

/-! ## §5. Linked modules. -/

theorem ids_assignSpans (spanOf : Nat → Option Span) (bs : List Block) :
    (bs.map (assignSpans spanOf)).map (fun b => b.info.id) = bs.map fun b => b.info.id := by
  rw [List.map_map]
  exact List.map_congr_left fun b _ => by rw [Function.comp, info_assignSpans]

/-- The blocks of a module are numbered in document order; all but the one for the blanks at its end
are made of nodes. -/
theorem parse_numbered {m : Module} (h : parse s = .ok m) :
    ∃ made trailing, m.root.descendants = made ++ trailing
      ∧ m.visited.length = made.length + 1
      ∧ m.root.info.id = 0
      ∧ m.linked = 0 :: made.map (fun b => b.info.id)
      ∧ made.map (fun b => b.info.id) = List.range' 1 made.length
      ∧ trailing.map (fun b => b.info.id) = List.range' (1 + made.length) trailing.length
      ∧ (trailing = [] ∨ ∃ space, trailing = [space] ∧ space.info.kind = .space) := by
  obtain ⟨root, p, hroot, rfl⟩ := parse_ok h
  obtain ⟨made, trailing, hsplit, ⟨nodes, hnodes, hids, hlinked, -⟩, hid, htrailing⟩ :=
    readRoot_numbered (represents_mark s) hroot
  have hmade : made.length = nodes.length := by simpa using congrArg List.length hids
  have hvisited : p.visited.length = made.length + 1 := by simp [hnodes, hmade, Progress.begun]
  -- giving out spans moves no block and leaves the numbers as they are
  have hspans := preorder_assignSpans p.ledger.spanOfBlock root
  rw [preorder_eq, preorder_eq root, List.map_cons, hsplit, List.map_append] at hspans
  refine ⟨_, _, (List.cons.inj hspans).2, ?_, ?_, ?_, ?_, ?_, ?_⟩
  · rw [List.length_map]
    exact hvisited
  · rw [info_assignSpans]
    exact hid
  · rw [ids_assignSpans]
    exact hlinked
  · rw [ids_assignSpans, List.length_map, hids, hmade]
    rfl
  · rw [ids_assignSpans, List.length_map, List.length_map]
    rcases htrailing with rfl | ⟨raw, gap, space, -, rfl⟩
    · rfl
    · simp [hvisited, Nat.add_comm]
  · rcases htrailing with rfl | ⟨raw, gap, space, hspace, rfl⟩
    · exact .inl rfl
    · obtain ⟨gapLines, indentation, lines, rfl⟩ := make_changes hspace
      exact .inr ⟨_, rfl, rfl⟩

/-- **The links of a module are its document order.**  From the module on they lead along all blocks
below it, as a walk through its outline comes to them, and back; only the block for the blanks at its
end, which was made of no node, is left out. -/
theorem parse_linked {m : Module} (h : parse s = .ok m) :
    ∃ made trailing, m.root.descendants = made ++ trailing
      ∧ m.visited.length = made.length + 1
      ∧ (trailing = [] ∨ ∃ space, trailing = [space] ∧ space.info.kind = .space
          ∧ m.toOutline.next? space.info.id = none ∧ m.toOutline.previous? space.info.id = none)
      ∧ m.root.info.id = 0 ∧ m.toOutline.data 0 = m.root.info.toBlockData
      ∧ (∀ member, (m.toOutline.view 0 member).map (fun tree => tree.descendants.map numbered)
          = .ok (m.root.descendants.map numbered))
      ∧ m.toOutline.Threads 0 (made.map fun b => b.info.id) := by
  obtain ⟨made, trailing, hsplit, hvisited, hroot, hlinked, hmade, hblanks, htrailing⟩ :=
    parse_numbered h
  have hids : m.root.preorder.map (fun b => b.info.id) = List.range m.root.preorder.length := by
    rw [preorder_eq, hsplit, List.map_cons, List.map_append, hroot, hmade, hblanks,
      List.range'_append_1, List.length_cons, List.length_append, List.range_eq_range',
      List.range'_succ]
  have hshows : ∀ b ∈ m.root.preorder, m.toOutline.Shows b := fun b => Module.shows_toOutline hids
  have hlinks : m.toOutline.links = 0 :: List.range' 1 made.length := by
    rw [← hmade]
    exact hlinked
  refine ⟨made, trailing, hsplit, hvisited, ?_, hroot, ?_, ?_, ?_⟩
  · rcases htrailing with rfl | ⟨space, rfl, hkind⟩
    · exact .inl rfl
    · have hlate : space.info.id = 1 + made.length := by simpa using hblanks
      have hoff : space.info.id ∉ m.toOutline.links := by
        simp [hlinks, hlate, List.mem_range'_1]
      exact .inr ⟨space, rfl, hkind, Outline.unlinked hoff⟩
  · rw [← hroot]
    exact (hshows m.root m.root.self_mem_preorder).data
  · intro member
    have hview := Outline.numbered_view (Nat.le_of_eq m.size_toOutline.symm) hshows
      (hids ▸ List.pairwise_lt_range) member
    rwa [hroot] at hview
  · rw [hmade]
    refine Outline.threads_links hlinks ?_
    simp [List.nodup_range']

/-- Below the module lie the class, the comment and the statement in it, and the blanks at the end,
which have number 4. -/
theorem parse_linked_decoratedClass :
    ∃ m, parse decoratedClass = .ok m
      ∧ m.root.descendants.map (fun b => b.info.id) = [1, 2, 3, 4]
      ∧ m.toOutline.Threads 0 [1, 2, 3] := by
  have hread : (parse decoratedClass).map
      (fun m => (m.visited.length, m.root.descendants.map fun b => b.info.id))
        = .ok (4, [1, 2, 3, 4]) := by decide +kernel
  cases hm : parse decoratedClass with
  | error e =>
    rw [hm] at hread
    cases hread
  | ok m =>
    rw [hm] at hread
    obtain ⟨hlength, hids⟩ := Prod.mk.inj (Except.ok.inj hread)
    obtain ⟨made, trailing, hsplit, hvisited, -, -, -, -, hthreads⟩ := parse_linked hm
    have hmade : made.map (fun b => b.info.id) = [1, 2, 3] := by
      have hrow : made.map (fun b => b.info.id) ++ trailing.map (fun b => b.info.id)
          = [1, 2, 3] ++ [4] := by rw [← List.map_append, ← hsplit, hids]; rfl
      refine (List.append_inj hrow ?_).1
      rw [List.length_map]
      exact Nat.succ.inj (hvisited.symm.trans hlength)
    exact ⟨m, rfl, hids, hmade ▸ hthreads⟩

end Parse

end CodeAtlas

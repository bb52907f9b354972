import CodeAtlas.Proofs.Parse.Numbering
import CodeAtlas.Proofs.Parse.SpanAccounts

/-!
# The spans of a module account for its blocks

Every block of a module belongs to one span, and each span says of itself just the blocks that belong
to it, with their tokens.

A comment may wait for the next block and join its span then, or join the span of the block around it
when that is finished.  What carries the proof is that all blocks begun so far have been booked in the
order of the document, except for a last few that are waiting (`Kept`).  Reading a block keeps this,
and leaves none waiting.

Main result:
  * `parse_accounts`: the spans of a module account for its blocks.
-/

namespace CodeAtlas.Parse

open Block SpanLedger

variable {s : Setting} {p q : Progress} {records : List Waiting}

/-! ## §1. The books while blocks are read. -/

/-- What is booked of a block. -/
def recordOf (info : BlockInfo) : Waiting :=
  { block := info.id, path := info.path, tokens := info.tokens }

/-- **The books are kept**: of the blocks begun so far, all are booked but the last few, which wait;
and if colons only stand where the names of spans have them, each span has a name of its own. -/
structure Kept (p : Progress) (records : List Waiting) : Prop where
  booked : ∃ bookings : List Booking,
    records = bookings.map (·.record) ++ p.waiting ∧ p.ledger.Accounts bookings
  early : ∀ w ∈ records, w.block < p.visited.length
  distinct : (records.map (·.block)).Nodup
  named : (∀ w ∈ records, SpanNames.Clean w.path) → p.ledger.Named

theorem Kept.start : Kept {} [] :=
  ⟨⟨[], rfl, Accounts.empty⟩, fun _ hw => absurd hw (by simp), List.nodup_nil,
    fun _ => Named.empty⟩

/-- The books look at nothing but the ledger, what waits, and how many blocks there are. -/
theorem Kept.congr (h : Kept p records) (hledger : q.ledger = p.ledger)
    (hwaiting : q.waiting = p.waiting) (hvisited : p.visited.length ≤ q.visited.length) :
    Kept q records := by
  refine ⟨?_, fun w hw => Nat.lt_of_lt_of_le (h.early w hw) hvisited, h.distinct, ?_⟩
  · rw [hledger, hwaiting]
    exact h.booked
  · rw [hledger]
    exact h.named

/-- A span that is there. -/
def IsOpen (p : Progress) (span : Option Nat) : Prop :=
  ∃ n, span = some n ∧ n < p.ledger.spans.size

theorem IsOpen.mono {span : Option Nat} (h : IsOpen p span)
    (hsize : p.ledger.spans.size ≤ q.ledger.spans.size) : IsOpen q span := by
  obtain ⟨n, hn, hlt⟩ := h
  exact ⟨n, hn, Nat.lt_of_lt_of_le hlt hsize⟩

/-- The ids of blocks of which the last is new. -/
theorem Kept.distinct_concat (h : Kept p records) {w : Waiting}
    (hnew : ∀ v ∈ records, v.block < w.block) :
    ((records ++ [w]).map (·.block)).Nodup := by
  rw [List.map_append, List.nodup_append]
  refine ⟨h.distinct, List.nodup_singleton _, ?_⟩
  intro i hi j hj heq
  obtain ⟨v, hv, rfl⟩ := List.mem_map.mp hi
  rw [List.map_singleton, List.mem_singleton] at hj
  have hlt := hnew v hv
  omega

theorem map_record (blocks : List Waiting) (n : Nat) :
    (blocks.map fun w => (⟨w, n⟩ : Booking)).map (·.record) = blocks := by
  rw [List.map_map]
  exact List.map_id _

/-- No block is booked twice, nor booked while it waits. -/
theorem Kept.nodup_blocks (h : Kept p records) {bookings : List Booking}
    (hrecords : records = bookings.map (·.record) ++ p.waiting) :
    (bookings.map (·.record.block) ++ p.waiting.map (·.block)).Nodup := by
  have hnodup := h.distinct
  rw [hrecords, List.map_append, List.map_map] at hnodup
  exact hnodup

/-- **A new block is booked, or waits.** -/
theorem enterBlock_kept {current span : Option Nat} {b : NewBlock} (h : Kept p records)
    (hnew : ∀ w ∈ records, w.block < b.id) (hid : b.id < p.visited.length)
    (hclean : SpanNames.Clean b.path → SpanNames.Clean b.structurePath)
    (henter : enterBlock s current b p = .ok (span, q)) :
    Kept q (records ++ [⟨b.id, b.path, b.tokens⟩]) ∧ IsOpen q span
    ∧ p.ledger.spans.size ≤ q.ledger.spans.size := by
  obtain ⟨bookings, hrecords, haccounts⟩ := h.booked
  have hdistinct := h.distinct_concat (w := ⟨b.id, b.path, b.tokens⟩) hnew
  have hcleanAll : (∀ w ∈ records ++ [⟨b.id, b.path, b.tokens⟩], SpanNames.Clean w.path) →
      (∀ w ∈ records, SpanNames.Clean w.path) ∧ SpanNames.Clean b.structurePath := by
    intro hall
    refine ⟨fun w hw => hall w (List.mem_append_left _ hw), ?_⟩
    exact hclean (hall _ (List.mem_append_right _ List.mem_cons_self))
  have hearly : ∀ w ∈ records ++ [⟨b.id, b.path, b.tokens⟩], w.block < p.visited.length := by
    intro w hw
    rcases List.mem_append.mp hw with hw | hw
    · exact h.early w hw
    · rw [List.mem_singleton.mp hw]
      exact hid
  unfold enterBlock at henter
  rw [get_bind_ok] at henter
  split at henter
  · rename_i hwaits
    obtain ⟨rfl, rfl⟩ := Prod.mk.inj (Except.ok.inj henter)
    refine ⟨⟨⟨bookings, ?_, haccounts⟩, hearly, hdistinct, fun hall => h.named (hcleanAll hall).1⟩,
      ?_, Nat.le_refl _⟩
    · rw [hrecords, List.append_assoc]
    · unfold waits at hwaits
      rw [Bool.and_eq_true, Option.any_eq_true] at hwaits
      obtain ⟨-, c, hc, -⟩ := hwaits
      obtain ⟨n, hn, hspan⟩ := Option.bind_eq_some_iff.mp hc
      exact ⟨n, hn, (Array.getElem?_eq_some_iff.mp hspan).1⟩
  · obtain ⟨hopened, hthere, hgrown⟩ := haccounts.openFor s.spanLimit current b
    have hnamed := fun hall => (h.named (hcleanAll hall).1).openFor s.spanLimit current b
      (hcleanAll hall).2
    dsimp only at henter
    generalize p.ledger.openFor s.spanLimit current b = opened at henter hopened hthere hgrown hnamed
    obtain ⟨rfl, rfl⟩ := Prod.mk.inj (Except.ok.inj henter)
    -- those that wait are booked first, and then the block itself
    have hsettled := hopened.enterAll p.waiting hthere (h.nodup_blocks hrecords)
    have hall := hsettled.enter ⟨b.id, b.path, b.tokens⟩ (by rw [size_enterAll]; exact hthere) (by
      rw [List.map_append, List.map_map]
      intro hmem
      have hmem' : b.id ∈ records.map (·.block) := by
        rw [hrecords, List.map_append, List.map_map]
        exact hmem
      obtain ⟨w, hw, heq⟩ := List.mem_map.mp hmem'
      have hlt := hnew w hw
      omega)
    refine ⟨⟨⟨_, ?_, hall⟩, hearly, hdistinct, ?_⟩, ⟨opened.1, rfl, ?_⟩, ?_⟩
    · rw [List.map_append, List.map_append, map_record, ← hrecords]
      exact (List.append_nil _).symm
    · intro hclean
      exact ((hnamed hclean).enterAll opened.1 p.waiting).enter opened.1 b.id b.path b.tokens
    · show opened.1 < ((opened.2.enterAll opened.1 p.waiting).enter _ _ _ _).spans.size
      rw [size_enter, size_enterAll]
      exact hthere
    · show _ ≤ ((opened.2.enterAll opened.1 p.waiting).enter _ _ _ _).spans.size
      rw [size_enter, size_enterAll]
      exact hgrown

/-- Those that still wait join an open span. -/
theorem settleRest_kept {id : Nat} {span : Option Nat} {waited : Bool} (h : Kept p records)
    (hspan : IsOpen p span) (hsettle : settleRest id span p = .ok (waited, q)) :
    Kept q records ∧ q.waiting = [] ∧ q.ledger.spans.size = p.ledger.spans.size := by
  obtain ⟨n, rfl, hn⟩ := hspan
  obtain ⟨bookings, hrecords, haccounts⟩ := h.booked
  unfold settleRest at hsettle
  obtain ⟨-, rfl⟩ := Prod.mk.inj (Except.ok.inj hsettle)
  have hsettled := haccounts.enterAll p.waiting hn (h.nodup_blocks hrecords)
  refine ⟨⟨⟨_, ?_, hsettled⟩, h.early, h.distinct, ?_⟩, rfl,
    size_enterAll _ _ _⟩
  · rw [List.map_append, map_record, ← hrecords]
    exact (List.append_nil _).symm
  · intro hclean
    exact (h.named hclean).enterAll n p.waiting

/-- A block that turns out to be of another kind changes nothing in the books. -/
theorem finish_kept {above : List OpenBlock} {d final : BlockData} {id : Nat}
    {children refined : List Block} (h : Kept p records)
    (hfinish : finish s above d id children p = .ok ((final, refined), q)) :
    Kept q records ∧ q.waiting = p.waiting ∧ q.ledger.spans.size = p.ledger.spans.size := by
  unfold finish at hfinish
  split at hfinish
  · rw [get_bind_ok, modify_if] at hfinish
    obtain ⟨-, rfl⟩ := pure_ok.mp hfinish
    split
    · obtain ⟨bookings, hrecords, haccounts⟩ := h.booked
      have hsums := map_rekind (g := fun s => (s.blockPaths, s.tokens)) (fun _ _ => rfl) p.ledger id
      have hids := map_rekind (g := fun s => s.id) (fun _ _ => rfl) p.ledger id
      refine ⟨⟨⟨bookings, hrecords, haccounts.congr rfl (hsums _)⟩, h.early, h.distinct, ?_⟩, rfl, ?_⟩
      · intro hclean
        exact (h.named hclean).congr rfl (hids _) rfl
      · exact Array.size_map
    · exact ⟨h, rfl, rfl⟩
  · obtain ⟨-, rfl⟩ := pure_ok.mp hfinish
    exact ⟨h, rfl, rfl⟩

/-! ## §2. Reading keeps the books. -/

/-- The blocks around a place: the path of the nearest one has the names of all of them. -/
def Leads (above : List OpenBlock) : Prop :=
  ∀ a ∈ above, a.path ⊆ (above.headD default).path

theorem Leads.cons {above : List OpenBlock} (h : Leads above) (d : BlockData) (id : Nat) :
    Leads (openBlock d id above :: above) := by
  intro a ha
  show a.path ⊆ (above.headD default).path ++ d.namePath
  rcases List.mem_cons.mp ha with rfl | ha
  · exact List.Subset.refl _
  · exact List.Subset.trans (h a ha) (List.subset_append_left _ _)

/-- The path that names the span of a block has no other names than the path of the block. -/
theorem Leads.clean {above : List OpenBlock} (h : Leads above) (d : BlockData) (id : Nat)
    (hclean : SpanNames.Clean (newBlock d id above).path) :
    SpanNames.Clean (newBlock d id above).structurePath := by
  rw [SpanNames.clean_iff] at hclean ⊢
  unfold NewBlock.structurePath
  split
  · exact hclean
  · cases hfound : (newBlock d id above).above.find? fun a => a.kind.isStructure with
    | none =>
      intro name hname
      exact absurd hname (by simp)
    | some a =>
      have ha : a ∈ above := List.mem_of_find?_eq_some hfound
      intro name hname
      exact hclean name (List.mem_append_left _ (h a ha hname))

/-- What is booked of blocks in a row. -/
def recordsOf (blocks : List Block) : List Waiting :=
  blocks.map fun b => recordOf b.info

theorem recordsOf_append (xs ys : List Block) :
    recordsOf (xs ++ ys) = recordsOf xs ++ recordsOf ys :=
  List.map_append

/-- A way to read one block keeps the books: its blocks are booked, none waits, and the span that it
ends in is there. -/
def Keeper (readOne : ReadOne) : Prop :=
  ∀ siblings node start current p read q records, Kept p records →
    readOne siblings node start current p = .ok (read, q) →
    Kept q (records ++ recordsOf read.block.preorder) ∧ q.waiting = [] ∧ IsOpen q read.span
    ∧ p.ledger.spans.size ≤ q.ledger.spans.size

/-- How the blocks below a block have been booked, where reading began in an open span or in none:
either there are none, or none of them waits. -/
theorem readBelow_kept {readOne : ReadOne} (hone : Keeper readOne) {m : Meaning} {node : Nat}
    {atTop : Bool} {span last : Option Nat} {below : Below} (h : Kept p records)
    (hspan : span = none ∨ IsOpen p span)
    (hbelow : readBelow s m node atTop readOne span p = .ok ((below, last), q)) :
    Kept q (records ++ recordsOf (preorderAll below.children))
    ∧ p.ledger.spans.size ≤ q.ledger.spans.size
    ∧ ((below.span = span ∧ q.waiting = p.waiting) ∨ (IsOpen q below.span ∧ q.waiting = [])) := by
  refine readBelow_rule (fun below q => Kept q (records ++ recordsOf (preorderAll below.children))
    ∧ p.ledger.spans.size ≤ q.ledger.spans.size
    ∧ ((below.span = span ∧ q.waiting = p.waiting) ∨ (IsOpen q below.span ∧ q.waiting = []))) ?_ ?_ hbelow
  · intro stop
    refine ⟨?_, Nat.le_refl _, .inl ⟨rfl, rfl⟩⟩
    rw [preorderAll, recordsOf, List.map_nil, List.append_nil]
    exact h
  · intro node below p' read q' hrow hread
    obtain ⟨hkept, hgrown, hends⟩ := hrow
    obtain ⟨hread, hnone, hreadSpan, hgrown'⟩ := hone _ _ _ _ _ _ _ _ hkept hread
    obtain ⟨hledger, hwaiting⟩ : (q'.noting atTop read.block).ledger = q'.ledger
        ∧ (q'.noting atTop read.block).waiting = q'.waiting := by
      unfold Progress.noting
      split <;> exact ⟨rfl, rfl⟩
    have hvisited := (noting_same q' atTop read.block).visited
    generalize q'.noting atTop read.block = p'' at hledger hwaiting hvisited ⊢
    have hsize : p''.ledger.spans.size = q'.ledger.spans.size := by rw [hledger]
    refine ⟨?_, by omega, .inr ⟨?_, hwaiting.trans hnone⟩⟩
    · show Kept p'' (records ++ recordsOf (preorderAll (below.children ++ [read.block])))
      rw [preorderAll_append, preorderAll, preorderAll, List.append_nil, recordsOf_append,
        ← List.append_assoc]
      exact hread.congr hledger hwaiting (Nat.le_of_eq (congrArg _ hvisited.symm))
    · -- reading goes on in the span of the block just read, or in the one before it, if there was one
      unfold Below.after
      dsimp only
      split
      · exact hreadSpan.mono (by omega)
      · rename_i hcond
        have hsome : below.span ≠ none := by
          intro heq
          rw [heq] at hcond
          exact absurd rfl hcond
        rcases hends with ⟨hsame, -⟩ | ⟨hopen, -⟩
        · rw [hsame] at hsome ⊢
          exact (hspan.resolve_left hsome).mono (by omega)
        · exact hopen.mono (by omega)

theorem recordsOf_refined {above : List OpenBlock} {d final : BlockData} {id : Nat}
    {children refined : List Block}
    (h : finish s above d id children p = .ok ((final, refined), q)) :
    recordsOf (preorderAll refined) = recordsOf (preorderAll children) := by
  rcases (finish_changes h).2 with rfl | rfl
  · rfl
  · exact Refine.map_preorderAll_markAllRepeats (f := recordOf) (fun _ _ => rfl) children

/-- **Reading a node keeps the books.** -/
theorem readNode_keeper :
    ∀ (fuel : Nat) (above : List OpenBlock), Leads above → Keeper (readNode s fuel above)
  | 0, _, _ => by
    intro siblings node start current p read q records _ h
    exact absurd h not_throw_ok
  | fuel + 1, above, hleads => by
    intro siblings node start current p read q records hkept h
    obtain ⟨depth, m, raw, d, span, below, waited, spanIds, final, children, p₁, p₂, p₃, p₄, p₅,
      hdepth, -, -, -, henter, hnames, hbelow, hsettle, hfinish, hindex, hspan, hblock⟩ :=
      readNode_ok h
    obtain rfl : fuel = depth := by omega
    have hbegun : Kept (p.begun node) records :=
      hkept.congr rfl rfl (by simp [Progress.begun])
    obtain ⟨hentered, hopen, hgrown⟩ := enterBlock_kept hbegun hkept.early
      (show p.visited.length < _ by simp [Progress.begun]) (hleads.clean d p.visited.length) henter
    obtain ⟨hledger, hwaits, hvisited⟩ : p₂.ledger = p₁.ledger ∧ p₂.waiting = p₁.waiting
        ∧ p₂.visited = p₁.visited := by
      obtain ⟨-, rfl⟩ := Prod.mk.inj (Except.ok.inj hnames)
      exact ⟨rfl, rfl, rfl⟩
    have hnoted := hentered.congr hledger hwaits (Nat.le_of_eq (congrArg _ hvisited.symm))
    have hopen : IsOpen p₂ span := hopen.mono (by rw [hledger])
    obtain ⟨hrow, hgrown', hends⟩ := readBelow_kept
      (readNode_keeper fuel _ (hleads.cons d p.visited.length)) hnoted (.inr hopen) hbelow
    rw [hledger] at hgrown'
    -- whatever still waits joins the span that reading has come to, which is there in any case
    have hopen' : IsOpen p₃ below.span := by
      rcases hends with ⟨hsame, -⟩ | ⟨hthere, -⟩
      · rw [hsame]
        exact hopen.mono (by rw [hledger]; exact hgrown')
      · exact hthere
    obtain ⟨hsettled, hnone, hsize⟩ := settleRest_kept hrow hopen' hsettle
    obtain ⟨hfinished, hwaiting, hsize'⟩ := finish_kept hsettled hfinish
    have hrecords : recordsOf read.block.preorder
        = ⟨p.visited.length, (newBlock d p.visited.length above).path, d.tokens⟩
          :: recordsOf (preorderAll below.children) := by
      obtain ⟨⟨kind, relationships, rfl⟩, -⟩ := finish_changes hfinish
      rw [hblock, preorder, recordsOf, List.map_cons, ← recordsOf_refined hfinish]
      rfl
    obtain ⟨-, rfl⟩ := Prod.mk.inj (Except.ok.inj hindex)
    refine ⟨?_, hwaiting.trans hnone, ?_, ?_⟩
    · rw [hrecords, List.append_cons]
      exact hfinished.congr rfl rfl (Nat.le_refl _)
    · rw [hspan]
      exact hopen'.mono (by rw [← hsize, ← hsize'])
    · show p.ledger.spans.size ≤ p₅.ledger.spans.size
      rw [hsize', hsize]
      exact Nat.le_trans hgrown hgrown'

/-- Reading a module keeps the books of its blocks, except for the block of the blanks at its end,
which has no tokens. -/
theorem readRoot_kept {root : Block} (h : readRoot s {} = .ok (root, q)) :
    ∃ made trailing, root.descendants = made ++ trailing ∧ Kept q (recordsOf made)
      ∧ q.waiting = [] ∧ root.info.tokens = 0
      ∧ (trailing = [] ∨ ∃ space, trailing = [space] ∧ space.info.kind = .space
          ∧ space.info.id = q.visited.length ∧ space.info.tokens = 0) := by
  obtain ⟨m, raw, d, below, last, spanIds, final, children, p₁, p₂, -, -, hd, hbelow, hfinish,
    hindex, hend⟩ := readRoot_ok h
  have hleads : Leads [openModule 0] := by
    intro a ha
    rw [List.mem_singleton.mp ha]
    exact List.Subset.refl _
  obtain ⟨hrow, -, hends⟩ := readBelow_kept (readNode_keeper _ _ hleads)
    (Kept.start.congr (q := Progress.begun {} 0) rfl rfl (Nat.zero_le _)) (.inl rfl) hbelow
  have hnone : p₁.waiting = [] := by
    rcases hends with ⟨-, hsame⟩ | ⟨-, hnone⟩
    · exact hsame
    · exact hnone
  obtain ⟨hfinished, hwaiting, -⟩ := finish_kept hrow hfinish
  rw [List.nil_append, ← recordsOf_refined hfinish] at hfinished
  have htokens : final.tokens = 0 := by
    obtain ⟨gapLines, indentation, lines, rfl⟩ := make_changes hd
    obtain ⟨⟨kind, relationships, rfl⟩, -⟩ := finish_changes hfinish
    rfl
  obtain ⟨hledger, hwaits, hvisited⟩ : q.ledger = p₂.ledger ∧ q.waiting = p₂.waiting
      ∧ q.visited = p₂.visited := by
    obtain ⟨-, rfl⟩ := Prod.mk.inj (Except.ok.inj hindex)
    exact ⟨rfl, rfl, rfl⟩
  have hkept := hfinished.congr hledger hwaits (Nat.le_of_eq (congrArg _ hvisited.symm))
  have hq : q.waiting = [] := hwaits.trans (hwaiting.trans hnone)
  rcases hend with ⟨-, gap, space, -, hspace, rfl⟩ | ⟨-, rfl⟩
  · obtain ⟨gapLines, indentation, lines, hblank⟩ := make_changes hspace
    refine ⟨preorderAll children, [⟨{ space with id := q.visited.length, path := [] }, []⟩], ?_,
      hkept, hq, htokens, .inr ⟨_, rfl, ?_, rfl, ?_⟩⟩
    · rw [descendants, preorderAll_append]
      rfl
    · rw [hblank]
      rfl
    · rw [hblank]
      rfl
  · exact ⟨preorderAll children, [], (List.append_nil _).symm, hkept, hq, htokens, .inl rfl⟩

/-! ## §3. Paths are made of names. -/

/-- The full path and the own name of each block. -/
def titlesOf (blocks : List Block) : List (Path × Option String) :=
  blocks.map fun b => (b.info.path, b.info.name)

/-- The paths of blocks have no names but those of the blocks, and those of a path around them. -/
def Titled (above : Path) (titles : List (Path × Option String)) : Prop :=
  ∀ t ∈ titles, ∀ name ∈ t.1, name ∈ above ∨ some name ∈ titles.map (·.2)

theorem Titled.append {above : Path} {xs ys : List (Path × Option String)} (hxs : Titled above xs)
    (hys : Titled above ys) : Titled above (xs ++ ys) := by
  intro t ht name hname
  rw [List.map_append, List.mem_append]
  rcases List.mem_append.mp ht with ht | ht
  · exact (hxs t ht name hname).imp_right .inl
  · exact (hys t ht name hname).imp_right .inr

theorem readBelow_titled {above : Path} {readOne : ReadOne}
    (hone : ∀ siblings node start current p read q,
      readOne siblings node start current p = .ok (read, q) →
      Titled above (titlesOf read.block.preorder))
    {m : Meaning} {node : Nat} {atTop : Bool} {span last : Option Nat} {below : Below}
    (h : readBelow s m node atTop readOne span p = .ok ((below, last), q)) :
    Titled above (titlesOf (preorderAll below.children)) := by
  refine readBelow_rule (fun below _ => Titled above (titlesOf (preorderAll below.children))) ?_ ?_ h
  · intro stop t ht
    exact absurd ht (by simp [titlesOf, preorderAll])
  · intro node below p' read q' hrow hread
    show Titled above (titlesOf (preorderAll (below.children ++ [read.block])))
    rw [preorderAll_append, preorderAll, preorderAll, List.append_nil, titlesOf, List.map_append]
    exact hrow.append (hone _ _ _ _ _ _ _ hread)

theorem titlesOf_refined {above : List OpenBlock} {d final : BlockData} {id : Nat}
    {children refined : List Block}
    (h : finish s above d id children p = .ok ((final, refined), q)) :
    titlesOf (preorderAll refined) = titlesOf (preorderAll children) := by
  rcases (finish_changes h).2 with rfl | rfl
  · rfl
  · exact Refine.map_preorderAll_markAllRepeats (f := fun info => (info.path, info.name))
      (fun _ _ => rfl) children

theorem readNode_titled :
    ∀ (fuel : Nat) (above : List OpenBlock) siblings node start current p read q,
      readNode s fuel above siblings node start current p = .ok (read, q) →
      Titled (above.headD default).path (titlesOf read.block.preorder)
  | 0, _, _, _, _, _, _, _, _, h => absurd h not_throw_ok
  | fuel + 1, above, siblings, node, start, current, p, read, q, h => by
    obtain ⟨depth, m, raw, d, span, below, waited, spanIds, final, children, p₁, p₂, p₃, p₄, p₅,
      hdepth, -, -, -, -, -, hbelow, -, hfinish, -, -, hblock⟩ := readNode_ok h
    obtain rfl : fuel = depth := by omega
    have hrow := readBelow_titled (readNode_titled fuel _) hbelow
    rw [← titlesOf_refined hfinish] at hrow
    have htitles : titlesOf read.block.preorder
        = ((newBlock d p.visited.length above).path, d.name) :: titlesOf (preorderAll children) := by
      obtain ⟨⟨kind, relationships, rfl⟩, -⟩ := finish_changes hfinish
      rw [hblock, preorder]
      rfl
    rw [htitles]
    -- a name of the block's own path is one of the path around it, or the block's own name
    have hown : ∀ name ∈ (newBlock d p.visited.length above).path,
        name ∈ (above.headD default).path ∨ d.name = some name := by
      intro name hname
      rcases List.mem_append.mp hname with hname | hname
      · exact .inl hname
      · refine .inr ?_
        unfold BlockData.namePath at hname
        split at hname
        · exact absurd hname (by simp)
        · exact absurd hname (by simp)
        · rename_i n hn
          rw [hn, List.mem_singleton.mp hname]
    intro t ht name hname
    rw [List.map_cons, List.mem_cons]
    rcases List.mem_cons.mp ht with rfl | ht
    · exact (hown name hname).imp_right fun heq => .inl heq.symm
    · rcases hrow t ht name hname with hpath | hbelow
      · exact (hown name hpath).imp_right fun heq => .inl heq.symm
      · exact .inr (.inr hbelow)

theorem readRoot_titled {root : Block} (h : readRoot s p = .ok (root, q)) :
    Titled [] (titlesOf root.descendants) := by
  obtain ⟨m, raw, d, below, last, spanIds, final, children, p₁, p₂, -, -, -, hbelow, hfinish, -,
    hend⟩ := readRoot_ok h
  have hrow := readBelow_titled (readNode_titled _ _) hbelow
  rw [← titlesOf_refined hfinish] at hrow
  rcases hend with ⟨-, gap, space, -, -, rfl⟩ | ⟨-, rfl⟩
  · rw [descendants, preorderAll_append, titlesOf, List.map_append]
    apply Titled.append hrow
    intro t ht name hname
    rw [List.mem_singleton.mp ht] at hname
    exact absurd hname (by simp)
  · exact hrow

/-! ## §4. The spans of a module. -/

section Entered

variable {l : SpanLedger} {bookings : List Booking} {infos : List BlockInfo} {info : BlockInfo}

/-- The data of a block with the span that it was booked on. -/
def entered (l : SpanLedger) (info : BlockInfo) : BlockInfo :=
  { info with span := l.spanOfBlock info.id }

/-- A block whose record was booked has got its span. -/
theorem span_entered (haccounts : l.Accounts bookings)
    (hblocks : (bookings.map (·.record.block)).Nodup)
    (hrecords : infos.map recordOf = bookings.map (·.record)) (hinfo : info ∈ infos) :
    ∃ n span, Assoc.get? info.id l.spanOf = some n ∧ l.spans[n]? = some span
      ∧ (entered l info).span = some span := by
  have hmem : recordOf info ∈ bookings.map (·.record) := hrecords ▸ List.mem_map_of_mem hinfo
  obtain ⟨e, he, heq⟩ := List.mem_map.mp hmem
  have hfound : Assoc.get? info.id l.spanOf = some e.span := by
    rw [← haccounts.get?_spanOf hblocks he, heq]
    rfl
  have hspan := Array.getElem?_eq_getElem (haccounts.inRange e he)
  refine ⟨e.span, _, hfound, hspan, ?_⟩
  show l.spanOfBlock info.id = _
  rw [spanOfBlock, hfound, Option.bind_some, hspan]

/-- The blocks that belong to a span are those that were booked on it. -/
theorem balance_entered (haccounts : l.Accounts bookings)
    (hblocks : (bookings.map (·.record.block)).Nodup) (hnamed : l.Named)
    (hrecords : infos.map recordOf = bookings.map (·.record)) {n : Nat} {span : Span}
    (hspan : l.spans[n]? = some span) :
    (span.blockPaths, span.tokens)
      = balance (((infos.map (entered l)).filter fun i => i.inSpan span.id).map recordOf) := by
  have hmine : ∀ info ∈ infos, (entered l info).inSpan span.id
      = decide (Assoc.get? (recordOf info).block l.spanOf = some n) := by
    intro info hinfo
    obtain ⟨k, other, hfound, hother, hentered⟩ := span_entered haccounts hblocks hrecords hinfo
    show _ = decide (Assoc.get? info.id l.spanOf = some n)
    rw [BlockInfo.inSpan, hentered, hfound]
    dsimp only
    rw [decide_eq_decide, Option.some.injEq]
    constructor
    · intro hid
      exact hnamed.eq_of_id hother hspan hid
    · rintro rfl
      rw [hspan] at hother
      rw [Option.some.inj hother]
  have hbalance : l.sums[n]? = some (span.blockPaths, span.tokens) := by
    rw [sums, List.getElem?_map, Array.getElem?_toList, hspan]
    rfl
  have hlt : n < l.spans.size := (Array.getElem?_eq_some_iff.mp hspan).1
  rw [haccounts.balanced n hlt, Option.some.injEq] at hbalance
  rw [← hbalance, haccounts.bookedOn_eq hblocks, ← hrecords, List.filter_map, List.filter_map,
    List.map_map]
  congr 2
  apply List.filter_congr
  intro info hinfo
  exact (hmine info hinfo).symm

/-- The spans have all tokens of the blocks that were booked. -/
theorem tally_entered (haccounts : l.Accounts bookings)
    (hrecords : infos.map recordOf = bookings.map (·.record)) :
    tally (fun i => i.tokens) (infos.map (entered l)) = tally (fun s => s.tokens) l.spans.toList := by
  calc tally (fun i => i.tokens) (infos.map (entered l))
      = tally (fun w => w.tokens) (infos.map recordOf) := by
        rw [tally_map, tally_map]
        rfl
    _ = tally (fun e => e.record.tokens) bookings := by rw [hrecords, tally_map]
    _ = tally (fun s => s.tokens) l.spans.toList := haccounts.tally_tokens.symm

end Entered

/-- A block keeps its name where it gets its span. -/
theorem names_of_assignSpans {root : Block} {spanOf : Nat → Option Span} {P : String → Prop}
    (h : ∀ b ∈ (root.assignSpans spanOf).descendants, ∀ name, b.info.name = some name → P name) :
    ∀ b ∈ root.descendants, ∀ name, b.info.name = some name → P name := by
  intro b hb name hname
  have hmem : { b.info with span := spanOf b.info.id }
      ∈ (root.assignSpans spanOf).descendants.map (·.info) := by
    rw [infos_descendants_assignSpans]
    exact List.mem_map.mpr ⟨b, hb, rfl⟩
  obtain ⟨b', hb', heq⟩ := List.mem_map.mp hmem
  exact h b' hb' name (by rw [heq]; exact hname)

/-- Where the names of the blocks of a module are clean, so are the paths that were booked. -/
theorem clean_of_names {root : Block} (h : readRoot s p = .ok (root, q))
    (hnames : ∀ b ∈ root.descendants, ∀ name, b.info.name = some name → ':' ∉ name.toList) :
    ∀ w ∈ recordsOf root.descendants, SpanNames.Clean w.path := by
  intro w hw
  obtain ⟨b, hb, rfl⟩ := List.mem_map.mp hw
  rw [SpanNames.clean_iff]
  intro name hname
  have htitled := readRoot_titled h _ (List.mem_map_of_mem hb) name hname
  rcases htitled with hnil | htitle
  · exact absurd hnil (by simp)
  · rw [titlesOf, List.map_map] at htitle
    obtain ⟨b', hb', heq⟩ := List.mem_map.mp htitle
    exact hnames b' hb' name heq

/-- How the blocks of a module have been booked: all but the blanks at its end, and on spans that
have names of their own. -/
theorem readRoot_booked {root : Block} (h : readRoot s {} = .ok (root, q))
    (hnames : ∀ b ∈ root.descendants, ∀ name, b.info.name = some name → ':' ∉ name.toList) :
    ∃ made trailing bookings, root.descendants = made ++ trailing
      ∧ (made.map (·.info)).map recordOf = bookings.map (fun e : Booking => e.record)
      ∧ q.ledger.Accounts bookings ∧ (bookings.map (·.record.block)).Nodup ∧ q.ledger.Named
      ∧ root.info.tokens = 0
      ∧ (trailing = [] ∨ ∃ space, trailing = [space] ∧ space.info.kind = .space
          ∧ q.ledger.spanOfBlock space.info.id = none ∧ space.info.tokens = 0) := by
  obtain ⟨made, trailing, hsplit, hkept, hnone, hzero, htrailing⟩ := readRoot_kept h
  obtain ⟨bookings, hbooked, haccounts⟩ := hkept.booked
  have hblocks := hkept.nodup_blocks hbooked
  rw [hnone, List.map_nil, List.append_nil] at hblocks
  rw [hnone, List.append_nil] at hbooked
  have hnamed : q.ledger.Named := by
    apply hkept.named
    intro w hw
    apply clean_of_names h hnames w
    rw [hsplit, recordsOf_append]
    exact List.mem_append_left _ hw
  refine ⟨made, trailing, bookings, hsplit, ?_, haccounts, hblocks, hnamed, hzero, ?_⟩
  · rw [List.map_map]
    exact hbooked
  · rcases htrailing with rfl | ⟨space, rfl, hkind, hid, htokens⟩
    · exact .inl rfl
    · refine .inr ⟨space, rfl, hkind, ?_, htokens⟩
      -- the number of the blanks comes behind those of all blocks that were booked
      rw [spanOfBlock, haccounts.get?_spanOf_none, Option.bind_none]
      intro hmem
      have hmem : space.info.id ∈ (recordsOf made).map (·.block) := by
        rw [hbooked, List.map_map]
        exact hmem
      obtain ⟨w, hw, heq⟩ := List.mem_map.mp hmem
      have hlt := hkept.early w hw
      omega

/-- The span that the table of a module has under a name. -/
def Module.spanUnder? (m : Module) (id : String) : Option Span :=
  (Assoc.get? id m.ledger.table).bind fun n => m.ledger.spans[n]?

/-- All spans together have the tokens of all spans, besides the module's own. -/
theorem tokensInSpans_all (module : Module)
    (h : ∀ span ∈ module.spans, module.spanUnder? span.id = some span) :
    module.toOutline.tokensInSpans 0 (module.spans.map (·.id))
      = module.root.info.tokens + tally (fun span => span.tokens) module.spans := by
  unfold Outline.tokensInSpans
  congr 1
  · obtain ⟨⟨info, children⟩, _, _, _, _⟩ := module
    rfl
  · rw [tally_map]
    apply tally_congr
    intro span hspan
    show ((module.spanUnder? span.id).map (·.tokens)).getD 0 = span.tokens
    rw [h span hspan]
    rfl

theorem totalTokens_eq (b : Block) :
    b.totalTokens = b.info.tokens + tally (fun d => d.info.tokens) b.descendants := by
  rw [totalTokens, preorder_eq, tally]

/-- **The spans of a module account for its blocks.**  Where no block has a colon in its name, each
block below the module but the blanks at its end belongs to one span, which the table of the module
has under its name; each span says of itself the paths and the tokens of just the blocks that belong
to it; and so the spans have all tokens of the module. -/
theorem parse_accounts (s : Setting) (module : Module) (h : parse s = .ok module)
    (hnames : ∀ b ∈ module.root.descendants, ∀ name, b.info.name = some name → ':' ∉ name.toList) :
    ∃ made trailing, module.root.descendants = made ++ trailing
      ∧ (trailing = [] ∨ ∃ space, trailing = [space] ∧ space.info.kind = .space
          ∧ space.info.span = none)
      ∧ (∀ b ∈ made, ∃ span, b.info.span = some span ∧ span ∈ module.spans)
      ∧ (∀ span ∈ module.spans, module.spanUnder? span.id = some span)
      ∧ (module.spans.map (·.id)).Nodup
      ∧ (∀ span ∈ module.spans,
          span.blockPaths = (made.filter fun b => b.info.inSpan span.id).map (fun b => b.info.path)
          ∧ span.tokens
            = tally (fun b => b.info.tokens) (made.filter fun b => b.info.inSpan span.id))
      ∧ module.root.totalTokens = tally (fun span => span.tokens) module.spans
      ∧ module.root.totalTokens
        = module.toOutline.tokensInSpans 0 (module.spans.map (·.id)) := by
  obtain ⟨root, p, hroot, rfl⟩ := parse_ok h
  have hinfos : (root.assignSpans p.ledger.spanOfBlock).descendants.map (·.info)
      = root.descendants.map fun b => entered p.ledger b.info :=
    infos_descendants_assignSpans root _
  obtain ⟨made, trailing, bookings, hsplit, hrecords, haccounts, hblocks, hnamed, hzero, htrailing⟩ :=
    readRoot_booked hroot (names_of_assignSpans hnames)
  -- the blocks of the module are the blocks that were read, with the spans they were booked on
  rw [hsplit, List.map_append] at hinfos
  obtain ⟨made', trailing', hsplit', hmade, hrest⟩ := List.map_eq_append_iff.mp hinfos
  have hmade : made'.map (·.info) = (made.map (·.info)).map (entered p.ledger) := by
    rw [hmade, List.map_map]
    rfl
  have hroot' : (root.assignSpans p.ledger.spanOfBlock).info.tokens = 0 := by
    obtain ⟨info, children⟩ := root
    exact hzero
  have hblanks : tally (fun d => d.info.tokens) trailing' = 0 := by
    rcases htrailing with rfl | ⟨space, rfl, -, -, htokens⟩
    · rw [List.map_eq_nil_iff.mp hrest]
      rfl
    · obtain ⟨space', rfl, hspace⟩ := List.map_eq_singleton_iff.mp hrest
      rw [tally, tally, hspace]
      exact (Int.add_zero _).trans htokens
  have htotal : (root.assignSpans p.ledger.spanOfBlock).totalTokens
      = tally (fun span => span.tokens) p.ledger.toList := by
    have hmine := tally_entered haccounts hrecords
    rw [← hmade, tally_map] at hmine
    rw [totalTokens_eq, hroot', hsplit', tally_append, hblanks, hmine, hnamed.toList_eq]
    omega
  refine ⟨made', trailing', hsplit', ?_, ?_, fun _ => hnamed.get?_of_mem, ?_, ?_, htotal, ?_⟩
  · rcases htrailing with rfl | ⟨space, rfl, hkind, hspan, -⟩
    · exact .inl (List.map_eq_nil_iff.mp hrest)
    · obtain ⟨space', rfl, hspace⟩ := List.map_eq_singleton_iff.mp hrest
      refine .inr ⟨space', rfl, ?_, ?_⟩
      · rw [hspace]
        exact hkind
      · rw [hspace]
        exact hspan
  · intro b hb
    have hmem : b.info ∈ (made.map (·.info)).map (entered p.ledger) :=
      hmade ▸ List.mem_map_of_mem hb
    obtain ⟨info, hinfo, heq⟩ := List.mem_map.mp hmem
    obtain ⟨n, span, -, hspan, hentered⟩ := span_entered haccounts hblocks hrecords hinfo
    refine ⟨span, ?_, hnamed.mem_toList.mpr ⟨n, hspan⟩⟩
    rw [← heq]
    exact hentered
  · show (p.ledger.toList.map (·.id)).Nodup
    rw [hnamed.toList_eq]
    exact hnamed.distinct
  · intro span hspan
    obtain ⟨n, hn⟩ := hnamed.mem_toList.mp hspan
    have hbalance := balance_entered haccounts hblocks hnamed hrecords hn
    rw [← hmade, List.filter_map, List.map_map] at hbalance
    obtain ⟨hpaths, htokens⟩ := Prod.mk.inj hbalance
    rw [List.map_map] at hpaths
    rw [tally_map] at htokens
    exact ⟨hpaths, htokens⟩
  · apply htotal.trans
    apply Eq.symm
    refine (tokensInSpans_all _ ?_).trans ?_
    · exact fun _ => hnamed.get?_of_mem
    · rw [hroot', Int.zero_add]
      rfl

/-- Two statements and a comment, which waits and joins their span in the end; the last statement is
too much for that span and opens another one. -/
def lateComment : Setting :=
  { tree :=
      { source := "a\nb\n# c\nd\n".toUTF8
        nodes := #[⟨none, "module", 0, 10⟩, ⟨some 0, "identifier", 0, 1⟩,
          ⟨some 0, "identifier", 2, 3⟩, ⟨some 0, "comment", 4, 7⟩, ⟨some 0, "identifier", 8, 9⟩] }
    captures :=
      [("python.scm:1", [⟨0, 0, "root"⟩, ⟨0, 1, "child.first"⟩, ⟨0, 1, "definition.module"⟩]),
       ("python.scm:6", [⟨3, 3, "root"⟩, ⟨3, 3, "definition.comment"⟩])]
    spanLimit := 2 }

theorem parse_accounts_lateComment :
    ∃ module, parse lateComment = .ok module
      ∧ module.spans.map (fun span => (span.id, span.blockPaths, span.tokens))
        = [("impl", [["a"], ["b"], ["_c"]], 4), ("impl:3", [["d"]], 1)]
      ∧ module.root.totalTokens = tally (fun span => span.tokens) module.spans := by
  have hchecked : ((parse lateComment).toOption.map fun module =>
      (module.root.descendants.all fun b => b.info.name.all fun name => !name.toList.contains ':',
        module.spans.map fun span => (span.id, span.blockPaths, span.tokens)))
      = some (true, [("impl", [["a"], ["b"], ["_c"]], 4), ("impl:3", [["d"]], 1)]) := by
    decide +kernel
  cases hmodule : parse lateComment with
  | error e =>
    rw [hmodule] at hchecked
    cases hchecked
  | ok module =>
    rw [hmodule] at hchecked
    obtain ⟨hnames, hspans⟩ := Prod.mk.inj (Option.some.inj hchecked)
    refine ⟨module, rfl, hspans, ?_⟩
    obtain ⟨_, _, -, -, -, -, -, -, htotal, -⟩ := parse_accounts lateComment module hmodule (by
      intro b hb name hname
      have hname' := List.all_eq_true.mp hnames b hb
      rw [hname] at hname'
      simpa using hname')
    exact htotal

end CodeAtlas.Parse

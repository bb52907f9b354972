import CodeAtlas.Parse.Module
import CodeAtlas.Proofs.Parse.SpanNames

/-!
# The accounts of the ledger of spans

Blocks are booked one after the other, each on one span.  What a span says of itself, the paths of
its blocks and their tokens, is what was booked on it (`Accounts`), and each span can be found under
a name of its own (`Named`).

`Accounts` looks at the sums of the spans and at which block was booked where, `Named` at the names
and the table, so that each operation is described once by what it does to these four.

Main results:
  * `Accounts.enter`, `Accounts.openFor`: entering blocks and opening spans keep the accounts;
  * `Named.openFor`: a new span gets a name of its own;
  * `Accounts.tally_tokens`: the spans share all tokens out among them.
-/

namespace CodeAtlas.SpanLedger

open Parse (Waiting)

variable {l l' : SpanLedger} {n k : Nat}

/-! ## §1. What the accounts look at. -/

/-- What each span says of its blocks: their paths, and how many tokens they have. -/
def sums (l : SpanLedger) : List (List Path × Int) :=
  l.spans.toList.map fun s => (s.blockPaths, s.tokens)

/-- The names of the spans, as they were opened. -/
def ids (l : SpanLedger) : List String :=
  l.spans.toList.map (·.id)

@[simp]
theorem length_sums (l : SpanLedger) : l.sums.length = l.spans.size := by
  rw [sums, List.length_map, Array.length_toList]

@[simp]
theorem length_ids (l : SpanLedger) : l.ids.length = l.spans.size := by
  rw [ids, List.length_map, Array.length_toList]

/-- What a change of one span does not touch is the same along all of them. -/
theorem map_changeSpan {β : Type} {g : Span → β} {f : Span → Span} (hf : ∀ s, g (f s) = g s)
    (l : SpanLedger) (n : Nat) :
    (l.changeSpan n f).spans.toList.map g = l.spans.toList.map g := by
  unfold changeSpan
  dsimp only
  rw [Array.toList_modify]
  apply List.ext_getElem?
  intro k
  rw [List.getElem?_map, List.getElem?_map, List.getElem?_modify]
  cases l.spans.toList[k]? with
  | none => rfl
  | some s =>
    dsimp only [Option.map_some, Functor.map]
    split
    · rw [hf]
    · rfl

theorem sums_changeSpan (l : SpanLedger) (n : Nat) (f : Span → Span)
    (hf : ∀ s, ((f s).blockPaths, (f s).tokens) = (s.blockPaths, s.tokens)) :
    (l.changeSpan n f).sums = l.sums :=
  map_changeSpan hf l n

theorem ids_changeSpan (l : SpanLedger) (n : Nat) (f : Span → Span) (hf : ∀ s, (f s).id = s.id) :
    (l.changeSpan n f).ids = l.ids :=
  map_changeSpan hf l n

theorem map_rekind {β : Type} {g : Span → β} (hg : ∀ s o, g { s with opener := o } = g s)
    (l : SpanLedger) (block : Nat) (kind : BlockKind) :
    (l.rekind block kind).spans.toList.map g = l.spans.toList.map g := by
  unfold rekind
  dsimp only
  rw [Array.toList_map, List.map_map]
  apply List.map_congr_left
  intro s _
  dsimp only [Function.comp_apply]
  cases s.opener with
  | none => rfl
  | some o =>
    dsimp only
    split
    · rw [hg]
    · rfl

/-! ## §2. Entering blocks. -/

/-- A block that was booked on the span of a number. -/
structure Booking where
  record : Waiting
  span : Nat

/-- The blocks that were booked on a span. -/
def bookedOn (n : Nat) (bookings : List Booking) : List Waiting :=
  (bookings.filter fun e => e.span = n).map (·.record)

/-- What a span should say of the blocks that were booked on it. -/
def balance (blocks : List Waiting) : List Path × Int :=
  (blocks.map (·.path), tally (·.tokens) blocks)

/-- **The accounts are kept**: the ledger knows just the bookings, and the spans say of themselves
what was booked on them. -/
structure Accounts (l : SpanLedger) (bookings : List Booking) : Prop where
  spanOf : l.spanOf = bookings.map fun e => (e.record.block, e.span)
  inRange : ∀ e ∈ bookings, e.span < l.spans.size
  balanced : ∀ n, n < l.spans.size → l.sums[n]? = some (balance (bookedOn n bookings))

theorem Accounts.empty : Accounts {} [] :=
  ⟨rfl, fun _ he => absurd he (by simp), fun _ hn => absurd hn (by simp)⟩

/-- The accounts look at nothing but the sums and at where blocks were booked. -/
theorem Accounts.congr {bookings : List Booking} (h : l.Accounts bookings)
    (hspanOf : l'.spanOf = l.spanOf) (hsums : l'.sums = l.sums) : l'.Accounts bookings := by
  have hsize : l'.spans.size = l.spans.size := by
    rw [← length_sums, hsums, length_sums]
  refine ⟨hspanOf.trans h.spanOf, ?_, ?_⟩
  · rw [hsize]
    exact h.inRange
  · rw [hsize, hsums]
    exact h.balanced

theorem bookedOn_append (n : Nat) (xs ys : List Booking) :
    bookedOn n (xs ++ ys) = bookedOn n xs ++ bookedOn n ys := by
  unfold bookedOn
  rw [List.filter_append, List.map_append]

theorem sums_enter (l : SpanLedger) (n block : Nat) (path : Path) (tokens : Int) (k : Nat) :
    (l.enter n block path tokens).sums[k]?
      = if k = n then (l.sums[k]?).map fun x => (x.1 ++ [path], x.2 + tokens) else l.sums[k]? := by
  unfold enter changeSpan sums
  dsimp only
  rw [Array.toList_modify, List.getElem?_map, List.getElem?_map, List.getElem?_modify]
  by_cases hk : k = n
  · rw [if_pos hk]
    cases l.spans.toList[k]? with
    | none => rfl
    | some s =>
      dsimp only [Option.map_some, Functor.map]
      rw [if_pos hk.symm]
  · rw [if_neg hk]
    cases l.spans.toList[k]? with
    | none => rfl
    | some s =>
      dsimp only [Option.map_some, Functor.map]
      rw [if_neg (Ne.symm hk)]

@[simp]
theorem size_enter (l : SpanLedger) (n block : Nat) (path : Path) (tokens : Int) :
    (l.enter n block path tokens).spans.size = l.spans.size := by
  unfold enter changeSpan
  exact Array.size_modify

/-- **A new block that is entered is one more booking.** -/
theorem Accounts.enter {bookings : List Booking} (h : l.Accounts bookings) (w : Waiting)
    (hn : n < l.spans.size) (hnew : w.block ∉ bookings.map (·.record.block)) :
    (l.enter n w.block w.path w.tokens).Accounts (bookings ++ [⟨w, n⟩]) := by
  refine ⟨?_, ?_, ?_⟩
  · -- the block is new to the ledger, so that it comes last there
    unfold SpanLedger.enter changeSpan
    dsimp only
    rw [h.spanOf, Assoc.put_of_absent, List.map_append]
    · rfl
    · apply Assoc.has_eq_false
      rw [List.map_map]
      exact hnew
  · intro e he
    rw [size_enter]
    rcases List.mem_append.mp he with he | he
    · exact h.inRange e he
    · rw [List.mem_singleton.mp he]
      exact hn
  · intro k hk
    rw [size_enter] at hk
    rw [sums_enter, h.balanced k hk, bookedOn_append]
    by_cases heq : k = n
    · rw [if_pos heq]
      have hlast : bookedOn k [⟨w, n⟩] = [w] := by simp [bookedOn, heq]
      rw [hlast]
      simp [balance, tally_append, tally]
    · rw [if_neg heq]
      have hnone : bookedOn k [⟨w, n⟩] = [] := by simp [bookedOn, Ne.symm heq]
      rw [hnone, List.append_nil]

/-- Blocks in a row, entered into one span. -/
def enterAll (l : SpanLedger) (n : Nat) (blocks : List Waiting) : SpanLedger :=
  blocks.foldl (fun l w => l.enter n w.block w.path w.tokens) l

theorem size_enterAll (l : SpanLedger) (n : Nat) (blocks : List Waiting) :
    (l.enterAll n blocks).spans.size = l.spans.size := by
  unfold enterAll
  induction blocks generalizing l with
  | nil => rfl
  | cons w rest ih => rw [List.foldl_cons, ih, size_enter]

theorem Accounts.enterAll {bookings : List Booking} (h : l.Accounts bookings)
    (blocks : List Waiting) (hn : n < l.spans.size)
    (hnew : (bookings.map (·.record.block) ++ blocks.map (·.block)).Nodup) :
    (l.enterAll n blocks).Accounts (bookings ++ blocks.map fun w => ⟨w, n⟩) := by
  unfold SpanLedger.enterAll
  induction blocks generalizing l bookings with
  | nil =>
    rw [List.map_nil, List.append_nil]
    exact h
  | cons w rest ih =>
    rw [List.map_cons, List.nodup_middle, List.nodup_cons] at hnew
    have hstep := h.enter w hn fun hmem => hnew.1 (List.mem_append_left _ hmem)
    have hrest := ih hstep (by rw [size_enter]; exact hn) (by
      rw [List.map_append, List.append_assoc]
      rw [← List.nodup_middle.trans List.nodup_cons] at hnew
      exact hnew)
    rw [List.append_assoc] at hrest
    exact hrest

/-! ## §3. Opening spans. -/

/-- A span that a block opens has the name that it is given, and no blocks yet. -/
theorem opened?_some {limit : Int} {current : Option Span} {b : NewBlock} {id : String}
    {role : SpanRole} {span : Span} {cuts : Bool}
    (h : opened? limit current b id role = (some span, cuts)) :
    span.id = id ∧ span.blockPaths = [] ∧ span.tokens = 0 := by
  unfold opened? at h
  dsimp only at h
  cases current with
  | none =>
    dsimp only at h
    split at h
    all_goals
      obtain ⟨hspan, -⟩ := Prod.mk.inj h
      rw [← Option.some.inj hspan]
      exact ⟨rfl, rfl, rfl⟩
  | some c =>
    dsimp only at h
    split at h
    · obtain ⟨hspan, -⟩ := Prod.mk.inj h
      rw [← Option.some.inj hspan]
      exact ⟨rfl, rfl, rfl⟩
    · split at h
      · obtain ⟨hspan, -⟩ := Prod.mk.inj h
        rw [← Option.some.inj hspan]
        exact ⟨rfl, rfl, rfl⟩
      · split at h
        · obtain ⟨hspan, -⟩ := Prod.mk.inj h
          rw [← Option.some.inj hspan]
          exact ⟨rfl, rfl, rfl⟩
        · cases (Prod.mk.inj h).1

/-- Without a current span, a block opens one. -/
theorem opened?_none {limit : Int} {current : Option Span} {b : NewBlock} {id : String}
    {role : SpanRole} {cuts : Bool} (h : opened? limit current b id role = (none, cuts)) :
    current.isSome = true := by
  cases current with
  | some c => rfl
  | none =>
    unfold opened? at h
    dsimp only at h
    split at h
    all_goals cases (Prod.mk.inj h).1

/-- The name that is made for the span of a block, and the names given out then. -/
def nextName (l : SpanLedger) (current : Option Nat) (b : NewBlock) : String × SpanNames :=
  l.names.next b.structurePath (roleAndLabel (current.bind fun n => l.spans[n]?) b).2

/-- A span that covers only a part of its block from now on keeps its name and its blocks. -/
def cutShort (l : SpanLedger) (cuts : Bool) (current : Option Nat) : SpanLedger :=
  if cuts then current.elim l fun n => l.changeSpan n fun s => { s with isPartial := true } else l

theorem cutShort_keeps (l : SpanLedger) (cuts : Bool) (current : Option Nat) :
    (l.cutShort cuts current).spanOf = l.spanOf ∧ (l.cutShort cuts current).names = l.names
    ∧ (l.cutShort cuts current).table = l.table ∧ (l.cutShort cuts current).sums = l.sums
    ∧ (l.cutShort cuts current).ids = l.ids := by
  unfold cutShort
  cases cuts with
  | false => exact ⟨rfl, rfl, rfl, rfl, rfl⟩
  | true =>
    cases current with
    | none => exact ⟨rfl, rfl, rfl, rfl, rfl⟩
    | some n =>
      exact ⟨rfl, rfl, rfl, sums_changeSpan l n _ fun _ => rfl, ids_changeSpan l n _ fun _ => rfl⟩

/-- What opening a span for a block does to what the accounts look at: a new span without blocks
comes last, or all stays as it is, and the current span goes on. -/
theorem openFor_cases (l : SpanLedger) (limit : Int) (current : Option Nat) (b : NewBlock) :
    (l.openFor limit current b).2.spanOf = l.spanOf
    ∧ (l.openFor limit current b).2.names = (l.nextName current b).2
    ∧ (((l.openFor limit current b).1 = l.spans.size
        ∧ (l.openFor limit current b).2.sums = l.sums ++ [([], 0)]
        ∧ (l.openFor limit current b).2.ids = l.ids ++ [(l.nextName current b).1]
        ∧ (l.openFor limit current b).2.table
          = Assoc.put (l.nextName current b).1 l.spans.size l.table)
      ∨ ((l.openFor limit current b).1 < l.spans.size
        ∧ (l.openFor limit current b).2.sums = l.sums
        ∧ (l.openFor limit current b).2.ids = l.ids
        ∧ (l.openFor limit current b).2.table = l.table)) := by
  unfold openFor nextName
  dsimp only
  generalize l.names.next b.structurePath
    (roleAndLabel (current.bind fun n => l.spans[n]?) b).2 = next
  generalize (roleAndLabel (current.bind fun n => l.spans[n]?) b).1 = role
  cases hopened : opened? limit (current.bind fun n => l.spans[n]?) b next.1 role with
  | mk fresh cuts =>
    cases fresh with
    | some span =>
      obtain ⟨hid, hpaths, htokens⟩ := opened?_some hopened
      have hkeeps := cutShort_keeps { l with names := next.2 } cuts current
      unfold cutShort at hkeeps
      dsimp only
      generalize (if cuts = true then _ else _ : SpanLedger) = cut at hkeeps ⊢
      obtain ⟨hspanOf, hnames, htable, hsums, hids⟩ := hkeeps
      have hsize : cut.spans.size = l.spans.size := by
        rw [← length_sums, hsums, length_sums]
      refine ⟨hspanOf, hnames, .inl ⟨hsize, ?_, ?_, ?_⟩⟩
      · show (cut.spans.push span).toList.map _ = _
        rw [Array.toList_push, List.map_append, List.map_singleton, hpaths, htokens]
        exact congrArg (· ++ _) hsums
      · show (cut.spans.push span).toList.map _ = _
        rw [Array.toList_push, List.map_append, List.map_singleton, hid]
        exact congrArg (· ++ _) hids
      · rw [htable, hsize]
    | none =>
      have hsome := opened?_none hopened
      refine ⟨rfl, rfl, .inr ⟨?_, ?_, ?_, rfl⟩⟩
      · cases current with
        | none => cases hsome
        | some n =>
          rw [Option.bind_some, Option.isSome_iff_exists] at hsome
          obtain ⟨c, hc⟩ := hsome
          exact (Array.getElem?_eq_some_iff.mp hc).1
      · exact sums_changeSpan { l with names := next.2 } _ _ fun _ => rfl
      · exact ids_changeSpan { l with names := next.2 } _ _ fun _ => rfl

/-- **Opening a span keeps the accounts**, and the span that reading goes on in is there. -/
theorem Accounts.openFor {bookings : List Booking} (h : l.Accounts bookings) (limit : Int)
    (current : Option Nat) (b : NewBlock) :
    (l.openFor limit current b).2.Accounts bookings
    ∧ (l.openFor limit current b).1 < (l.openFor limit current b).2.spans.size
    ∧ l.spans.size ≤ (l.openFor limit current b).2.spans.size := by
  obtain ⟨hspanOf, -, hopened⟩ := l.openFor_cases limit current b
  generalize l.openFor limit current b = opened at hspanOf hopened ⊢
  rcases hopened with ⟨hnumber, hsums, -, -⟩ | ⟨hnumber, hsums, -, -⟩
  · have hsize : opened.2.spans.size = l.spans.size + 1 := by
      rw [← length_sums, hsums, List.length_append, length_sums]
      rfl
    refine ⟨⟨hspanOf.trans h.spanOf, ?_, ?_⟩, by omega, by omega⟩
    · intro e he
      have hlt := h.inRange e he
      omega
    · intro n hn
      rw [hsums]
      by_cases hlast : n = l.spans.size
      · -- nothing can have been booked on the new span
        have hnone : bookedOn n bookings = [] := by
          unfold bookedOn
          rw [List.map_eq_nil_iff, List.filter_eq_nil_iff]
          intro e he
          have hlt := h.inRange e he
          simp only [decide_eq_true_eq]
          omega
        rw [hnone, List.getElem?_append_right (by rw [length_sums]; omega), length_sums, hlast,
          Nat.sub_self]
        rfl
      · rw [List.getElem?_append_left (by rw [length_sums]; omega)]
        exact h.balanced n (by omega)
  · have hsize : opened.2.spans.size = l.spans.size := by
      rw [← length_sums, hsums, length_sums]
    exact ⟨h.congr hspanOf hsums, by omega, by omega⟩

/-! ## §4. Names. -/

/-- **Each span has a name of its own**, under which the table leads to it. -/
structure Named (l : SpanLedger) : Prop where
  table : l.table = l.ids.zipIdx
  distinct : l.ids.Nodup
  given : ∀ id ∈ l.ids, l.names.Given id

theorem Named.empty : Named {} :=
  ⟨rfl, List.nodup_nil, fun _ hid => absurd hid (by simp [ids])⟩

theorem Named.congr (h : l.Named) (htable : l'.table = l.table) (hids : l'.ids = l.ids)
    (hnames : l'.names = l.names) : l'.Named := by
  refine ⟨?_, ?_, ?_⟩
  · rw [htable, hids]
    exact h.table
  · rw [hids]
    exact h.distinct
  · rw [hids, hnames]
    exact h.given

theorem Named.enter (h : l.Named) (n block : Nat) (path : Path) (tokens : Int) :
    (l.enter n block path tokens).Named :=
  h.congr rfl (ids_changeSpan l n _ fun _ => rfl) rfl

theorem Named.enterAll (h : l.Named) (n : Nat) (blocks : List Waiting) :
    (l.enterAll n blocks).Named := by
  unfold SpanLedger.enterAll
  induction blocks generalizing l with
  | nil => exact h
  | cons w rest ih => exact ih (h.enter n w.block w.path w.tokens)

/-- A span that is opened gets a name that no other span has. -/
theorem Named.openFor (h : l.Named) (limit : Int) (current : Option Nat) (b : NewBlock)
    (hclean : SpanNames.Clean b.structurePath) : (l.openFor limit current b).2.Named := by
  obtain ⟨-, hnames, hopened⟩ := l.openFor_cases limit current b
  generalize l.openFor limit current b = opened at hnames hopened ⊢
  have hold : ∀ id ∈ l.ids, opened.2.names.Given id := by
    intro id hid
    rw [hnames]
    exact (h.given id hid).next _ _
  rcases hopened with ⟨-, -, hids, htable⟩ | ⟨-, -, hids, htable⟩
  · have hfresh : (l.nextName current b).1 ∉ l.ids := by
      intro hmem
      exact SpanNames.next_fresh hclean (h.given _ hmem)
    refine ⟨?_, ?_, ?_⟩
    · rw [htable, h.table, hids, List.zipIdx_append, Assoc.put_of_absent, length_ids]
      · simp
      · apply Assoc.has_eq_false
        rw [List.zipIdx_map_fst]
        exact hfresh
    · rw [hids]
      exact List.Nodup.append h.distinct (List.nodup_singleton _)
        (by simpa [List.disjoint_singleton] using hfresh)
    · rw [hids]
      intro id hid
      rcases List.mem_append.mp hid with hid | hid
      · exact hold id hid
      · rw [List.mem_singleton.mp hid, hnames]
        exact SpanNames.given_next hclean
  · refine ⟨?_, ?_, ?_⟩
    · rw [htable, hids]
      exact h.table
    · rw [hids]
      exact h.distinct
    · rw [hids]
      exact hold

/-! ## §5. The spans of a finished ledger. -/

/-- The table leads to a span from its name. -/
theorem Named.get?_table (h : l.Named) {span : Span} (hspan : l.spans[n]? = some span) :
    Assoc.get? span.id l.table = some n := by
  rw [h.table, Assoc.get?_eq_some]
  · rw [List.mem_zipIdx_iff_getElem?, ids, List.getElem?_map, Array.getElem?_toList, hspan]
    rfl
  · rw [List.zipIdx_map_fst]
    exact h.distinct

/-- Spans of one name are one span. -/
theorem Named.eq_of_id (h : l.Named) {a b : Span} (ha : l.spans[n]? = some a)
    (hb : l.spans[k]? = some b) (hid : a.id = b.id) : n = k := by
  have hn := h.get?_table ha
  rw [hid, h.get?_table hb] at hn
  exact (Option.some.inj hn).symm

/-- The table lists all spans, as they were opened. -/
theorem Named.toList_eq (h : l.Named) : l.toList = l.spans.toList := by
  unfold toList
  rw [h.table, ids, List.zipIdx_map, List.filterMap_map]
  have hfound : ∀ e ∈ l.spans.toList.zipIdx, l.spans[e.2]? = some e.1 := by
    intro e he
    rw [← Array.getElem?_toList]
    exact List.mem_zipIdx_iff_getElem?.mp he
  calc List.filterMap _ l.spans.toList.zipIdx
      = l.spans.toList.zipIdx.filterMap fun e => some e.1 := List.filterMap_congr hfound
    _ = l.spans.toList := by
      rw [List.filterMap_eq_map', List.zipIdx_map_fst]

/-- The spans in the table are those that were opened. -/
theorem Named.mem_toList (h : l.Named) {span : Span} :
    span ∈ l.toList ↔ ∃ n : Nat, l.spans[n]? = some span := by
  rw [h.toList_eq, List.mem_iff_getElem?]
  simp only [Array.getElem?_toList]

/-- The table has each of its spans under the span's own name. -/
theorem Named.get?_of_mem (h : l.Named) {span : Span} (hspan : span ∈ l.toList) :
    (Assoc.get? span.id l.table).bind (fun n => l.spans[n]?) = some span := by
  obtain ⟨n, hn⟩ := h.mem_toList.mp hspan
  rw [h.get?_table hn, Option.bind_some, hn]

/-- A block that was booked belongs to the span that it was booked on. -/
theorem Accounts.get?_spanOf {bookings : List Booking} (h : l.Accounts bookings)
    (hblocks : (bookings.map (·.record.block)).Nodup) {e : Booking} (he : e ∈ bookings) :
    Assoc.get? e.record.block l.spanOf = some e.span := by
  rw [h.spanOf, Assoc.get?_eq_some]
  · exact List.mem_map_of_mem he
  · rw [List.map_map]
    exact hblocks

theorem Accounts.get?_spanOf_none {bookings : List Booking} (h : l.Accounts bookings) {block : Nat}
    (hblock : block ∉ bookings.map (·.record.block)) : Assoc.get? block l.spanOf = none := by
  rw [h.spanOf]
  by_contra hfound
  obtain ⟨n, hn⟩ := Option.ne_none_iff_exists'.mp hfound
  obtain ⟨k, hk, hmem⟩ := Assoc.mem_of_get? hn
  obtain ⟨e, he, heq⟩ := List.mem_map.mp hmem
  apply hblock
  rw [← eq_of_beq hk, ← (Prod.mk.inj heq).1]
  exact List.mem_map_of_mem he

theorem Accounts.bookedOn_eq {bookings : List Booking} (h : l.Accounts bookings)
    (hblocks : (bookings.map (·.record.block)).Nodup) (n : Nat) :
    bookedOn n bookings = (bookings.map (·.record)).filter
      fun w => decide (Assoc.get? w.block l.spanOf = some n) := by
  rw [bookedOn, List.filter_map]
  congr 1
  apply List.filter_congr
  intro e he
  rw [Function.comp_apply, h.get?_spanOf hblocks he]
  simp

theorem tally_map {α β : Type} (count : β → Int) (f : α → β) (xs : List α) :
    tally count (xs.map f) = tally (fun a => count (f a)) xs := by
  induction xs with
  | nil => rfl
  | cons x xs ih => rw [List.map_cons, tally, tally, ih]

theorem tally_congr {α : Type} {f g : α → Int} {xs : List α} (h : ∀ x ∈ xs, f x = g x) :
    tally f xs = tally g xs := by
  induction xs with
  | nil => rfl
  | cons x xs ih =>
    rw [tally, tally, h x List.mem_cons_self, ih fun y hy => h y (List.mem_cons_of_mem _ hy)]

/-- What was booked below the next number was booked below this one, or on it. -/
theorem tally_filter_lt_succ (bookings : List Booking) (k : Nat) :
    tally (·.record.tokens) (bookings.filter fun e => e.span < k)
      + tally (·.record.tokens) (bookings.filter fun e => e.span = k)
      = tally (·.record.tokens) (bookings.filter fun e => e.span < k + 1) := by
  induction bookings with
  | nil => rfl
  | cons e rest ih =>
    simp only [List.filter_cons, decide_eq_true_eq]
    rcases Nat.lt_trichotomy e.span k with hlt | heq | hgt
    · rw [if_pos hlt, if_neg (by omega), if_pos (by omega), tally, tally]
      omega
    · rw [if_neg (by omega), if_pos heq, if_pos (by omega), tally, tally]
      omega
    · rw [if_neg (by omega), if_neg (by omega), if_neg (by omega)]
      exact ih

/-- The spans up to a number share out among them what was booked on them. -/
theorem tally_bookedOn (bookings : List Booking) (k : Nat) :
    tally (fun n => tally (·.tokens) (bookedOn n bookings)) (List.range k)
      = tally (·.record.tokens) (bookings.filter fun e => e.span < k) := by
  induction k with
  | zero => simp [tally]
  | succ k ih =>
    rw [List.range_succ, tally_append, ih, tally, tally, bookedOn, tally_map, Int.add_zero]
    exact tally_filter_lt_succ bookings k

/-- **The spans share all tokens out among them.** -/
theorem Accounts.tally_tokens {bookings : List Booking} (h : l.Accounts bookings) :
    tally (·.tokens) l.spans.toList = tally (·.record.tokens) bookings := by
  have hsums : l.sums
      = (List.range l.spans.size).map fun n => balance (bookedOn n bookings) := by
    apply List.ext_getElem?
    intro n
    by_cases hn : n < l.spans.size
    · rw [h.balanced n hn, List.getElem?_map, List.getElem?_range hn, Option.map_some]
    · rw [List.getElem?_eq_none (by rw [length_sums]; omega),
        List.getElem?_eq_none (by rw [List.length_map, List.length_range]; omega)]
  have hall : (bookings.filter fun e => e.span < l.spans.size) = bookings := by
    rw [List.filter_eq_self]
    intro e he
    simpa using h.inRange e he
  calc tally (·.tokens) l.spans.toList
      = tally (·.2) l.sums := by rw [sums, tally_map]
    _ = tally (fun n => tally (·.tokens) (bookedOn n bookings)) (List.range l.spans.size) := by
      rw [hsums, tally_map]
      rfl
    _ = tally (·.record.tokens) bookings := by rw [tally_bookedOn, hall]

end CodeAtlas.SpanLedger

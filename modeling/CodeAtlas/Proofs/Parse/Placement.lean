import CodeAtlas.Proofs.Syntax.Nesting
import Mathlib.Data.List.TakeWhile

/-!
# Where the captures of a node lie

A query speaks about a node through the captures that count for it.  `Descending` says that these
captures lead downwards: the nodes they point to lie below the node they are captured for.
`Faithful` says in addition that a node which the question is handed on to ends where that node
ends.

`Meaning.ofNode_nested` and `Meaning.ofNode_placed` carry this over to what a node means, through
any number of questions that are handed on: the first child lies below the node that the answer is
about, and that node ends with the node that was asked about.
-/

namespace CodeAtlas

open SyntaxTree

variable {t : SyntaxTree} {table : CaptureTable} {node : Nat}

/-! ## §1. Captures that count. -/

/-- The captures that count when a query is asked about a node: those from the one on that tags
the node itself as `root`. -/
def SyntaxTree.counted (t : SyntaxTree) (table : CaptureTable) (label : String) (node : Nat) :
    List Capture :=
  (t.capturesAt table label node).dropWhile fun c => !(c.tag = "root" && c.node = node)

/-- The captures of the queries lead downwards. -/
structure Descending (t : SyntaxTree) (table : CaptureTable) (queries : List Query) : Prop where
  /-- The first child of a node lies below it. -/
  firstBelow : ∀ q ∈ queries, ∀ node, ∀ c ∈ t.counted table q.label node,
    c.tag = "child.first" → t.Below node c.node
  /-- A node that a question is handed on to lies below the node that was asked about. -/
  askedBelow : ∀ q ∈ queries, ∀ node, ∀ c ∈ t.counted table q.label node,
    c.tag = "check_child" ∨ c.tag = "parse_child" → t.Below node c.node

/-- What the captures of well-written queries have in common. -/
structure Faithful (t : SyntaxTree) (table : CaptureTable) (queries : List Query) : Prop
    extends Descending t table queries where
  /-- The node that answers for another one ends with it. -/
  checkedStop : ∀ q ∈ queries, ∀ node c,
    (t.counted table q.label node).find? (fun c => c.tag = "check_child") = some c →
      t.stop c.node = t.stop node

/-- Where captures count, one of them tags the node itself as `root`. -/
theorem SyntaxTree.root_mem_of_counted {label : String} {c : Capture}
    (h : c ∈ t.counted table label node) :
    ∃ r ∈ table.flatMap (·.2), r.tag = "root" ∧ r.node = node := by
  unfold counted at h
  have hne : ∃ r ∈ t.capturesAt table label node, r.tag = "root" ∧ r.node = node := by
    by_contra hnone
    have hall : ∀ r ∈ t.capturesAt table label node,
        (!(decide (r.tag = "root") && decide (r.node = node))) = true := by
      intro r hr
      simp only [Bool.not_eq_true', Bool.and_eq_false_iff, decide_eq_false_iff_not]
      by_contra hroot
      push Not at hroot
      exact hnone ⟨r, hr, hroot⟩
    rw [List.dropWhile_eq_nil_iff.mpr hall] at h
    exact absurd h (by simp)
  obtain ⟨r, hr, hroot⟩ := hne
  refine ⟨r, ?_, hroot⟩
  unfold capturesAt at hr
  have hmem := List.mem_of_mem_filter hr
  cases he : table.find? fun e => e.1 == label with
  | none =>
    rw [he] at hmem
    exact absurd hmem (by simp)
  | some e =>
    rw [he] at hmem
    exact List.mem_flatMap.mpr ⟨e, List.mem_of_find?_eq_some he, hmem⟩

/-- Are the captures of the queries those of well-written ones?  Looks at the nodes that are tagged
as `root` anywhere. -/
def isFaithful (t : SyntaxTree) (table : CaptureTable) (queries : List Query) : Bool :=
  queries.all fun q => (table.flatMap (·.2)).all fun r =>
    let cs := t.counted table q.label r.node
    cs.all (fun c =>
      decide (c.tag ≠ "child.first" ∧ c.tag ≠ "check_child" ∧ c.tag ≠ "parse_child")
      || (t.isWithin r.node c.node && decide (c.node ≠ r.node)))
    && (cs.find? fun c => c.tag = "check_child").all fun c =>
      decide (t.stop c.node = t.stop r.node)

theorem faithful_of_isFaithful {queries : List Query} (h : isFaithful t table queries = true) :
    Faithful t table queries := by
  unfold isFaithful at h
  simp only [List.all_eq_true, Bool.and_eq_true, Bool.or_eq_true, decide_eq_true_eq] at h
  have hbelow : ∀ q ∈ queries, ∀ node, ∀ c ∈ t.counted table q.label node,
      c.tag = "child.first" ∨ c.tag = "check_child" ∨ c.tag = "parse_child" →
      t.Below node c.node := by
    intro q hq node c hc htag
    obtain ⟨r, hr, -, rfl⟩ := root_mem_of_counted hc
    rcases (h q hq r hr).1 c hc with hother | hwithin
    · rcases htag with htag | htag | htag
      · exact absurd htag hother.1
      · exact absurd htag hother.2.1
      · exact absurd htag hother.2.2
    · exact below_of_isWithin hwithin.1 hwithin.2
  refine ⟨⟨fun q hq node c hc htag => hbelow q hq node c hc (.inl htag),
    fun q hq node c hc htag => hbelow q hq node c hc (.inr htag)⟩, ?_⟩
  intro q hq node c hc
  obtain ⟨r, hr, -, rfl⟩ := root_mem_of_counted (List.mem_of_find?_eq_some hc)
  have hstop := (h q hq r hr).2
  rw [hc] at hstop
  simpa using hstop

namespace Meaning

/-! ## §2. What a meaning says about places. -/

/-- The first child lies below the node that answers, which is the node itself or one below it. -/
structure Nested (t : SyntaxTree) (node : Nat) (m : Meaning) : Prop where
  checked : ∀ k, m.checked = some k → t.Below node k
  first : ∀ f, m.firstChild = some f → t.Below (m.checked.getD node) f

/-- In either case the first child lies below the node. -/
theorem Nested.first_below {m : Meaning} (h : m.Nested t node) {f : Nat}
    (hf : m.firstChild = some f) : t.Below node f := by
  have hbelow := h.first f hf
  cases hk : m.checked with
  | none =>
    rw [hk] at hbelow
    exact hbelow
  | some k =>
    rw [hk] at hbelow
    exact (h.checked k hk).trans hbelow

/-- The node that answers is the node itself or lies below it. -/
theorem Nested.answers {m : Meaning} (h : m.Nested t node) :
    m.checked.getD node = node ∨ t.Below node (m.checked.getD node) := by
  cases hk : m.checked with
  | none => exact .inl rfl
  | some k => exact .inr (h.checked k hk)

theorem nested_of_none {m : Meaning} (hc : m.checked = none) (hf : m.firstChild = none) :
    m.Nested t node where
  checked := by
    intro k hk
    rw [hc] at hk
    exact absurd hk (by simp)
  first := by
    intro f hf'
    rw [hf] at hf'
    exact absurd hf' (by simp)

/-- The first child lies below the node that answers, which is the node itself or one below it that
ends with it. -/
structure Placed (t : SyntaxTree) (node : Nat) (m : Meaning) : Prop where
  checked : ∀ k, m.checked = some k → t.Below node k ∧ t.stop k = t.stop node
  first : ∀ f, m.firstChild = some f → t.Below (m.checked.getD node) f

theorem Placed.nested {m : Meaning} (h : m.Placed t node) : m.Nested t node :=
  ⟨fun k hk => (h.checked k hk).1, h.first⟩

/-- The node that answers ends with the node that was asked about. -/
theorem Placed.stop_checked {m : Meaning} (h : m.Placed t node) :
    t.stop (m.checked.getD node) = t.stop node := by
  cases hk : m.checked with
  | none => rfl
  | some k => exact (h.checked k hk).2

/-! ## §3. Reading captures. -/

theorem note_checked (m : Meaning) (n : Nat) (tag : String) : (m.note n tag).checked = m.checked := by
  unfold note
  dsimp only
  split <;> split <;> rfl

/-- Only a capture that says so gives a node its first child. -/
theorem note_firstChild {m : Meaning} {n : Nat} {tag : String} {f : Nat}
    (h : (m.note n tag).firstChild = some f) :
    m.firstChild = some f ∨ tag = "child.first" ∧ f = n := by
  unfold note at h
  dsimp only at h
  have hor : m.firstChild.or (some n) = some f → m.firstChild = some f ∨ f = n := by
    intro hor
    cases hm : m.firstChild with
    | none =>
      rw [hm] at hor
      exact .inr (Option.some.inj hor).symm
    | some g =>
      rw [hm] at hor
      exact .inl hor
  split at h <;> split at h
  case h_2 => exact (hor h).imp id fun heq => ⟨rfl, heq⟩
  case h_2 => exact (hor h).imp id fun heq => ⟨rfl, heq⟩
  all_goals exact .inl h

/-- Nothing counts before the capture that tags the node itself as `root`. -/
theorem read_false (search : Nat → Outcome (Option Meaning)) (m : Meaning) (cs : List Capture) :
    read t search node false m cs
      = read t search node true m
          (cs.dropWhile fun c => !(c.tag = "root" && c.node = node)) := by
  induction cs with
  | nil => rfl
  | cons c cs ih =>
    by_cases hroot : (c.tag = "root" && c.node = node) = true
    · rw [List.dropWhile_cons_of_neg (by rw [hroot]; simp), read, read, hroot]
      rfl
    · have hfalse : (decide (c.tag = "root") && decide (c.node = node)) = false :=
        Bool.eq_false_iff.mpr hroot
      rw [List.dropWhile_cons_of_pos (by rw [hfalse]; rfl), ← ih, read, hfalse]
      rfl

/-- What one capture does, once they count: the question is handed on for good, or the other
captures are read, after the answer of a node below may have been adopted. -/
theorem read_cons {search : Nat → Outcome (Option Meaning)} {m found : Meaning} {c : Capture}
    {cs : List Capture} (h : read t search node true m (c :: cs) = .ok (some found)) :
    (c.tag = "check_child" ∧ ∃ a, search c.node = .ok (some a)
      ∧ found = { a with checked := some c.node })
    ∨ (c.tag ≠ "check_child" ∧ ∃ m', (m' = m ∨ c.tag = "parse_child"
        ∧ ∃ a, search c.node = .ok (some a) ∧ m' = m.adopt a)
      ∧ read t search node true (m'.note c.node c.tag) cs = .ok (some found)) := by
  rw [read] at h
  simp only [Bool.true_or, Bool.not_true, Bool.false_eq_true, if_false] at h
  by_cases hchildren : (decide (c.tag = "no_children") && !(t.children c.node).isEmpty) = true
  · rw [if_pos hchildren] at h
    exact absurd h (by simp)
  rw [if_neg hchildren] at h
  by_cases hcheck : c.tag = "check_child"
  · rw [if_pos hcheck] at h
    cases hs : search c.node with
    | error e =>
      rw [hs] at h
      exact absurd h (by simp)
    | ok answer =>
      rw [hs] at h
      obtain ⟨a, rfl, hfound⟩ := Option.map_eq_some_iff.mp (Except.ok.inj h)
      exact .inl ⟨hcheck, a, rfl, hfound.symm⟩
  rw [if_neg hcheck] at h
  by_cases hparse : c.tag = "parse_child"
  · rw [if_pos hparse] at h
    cases hs : search c.node with
    | error e =>
      rw [hs] at h
      exact absurd h (by simp)
    | ok answer =>
      rw [hs] at h
      cases answer with
      | none => exact .inr ⟨hcheck, m, .inl rfl, h⟩
      | some a => exact .inr ⟨hcheck, m.adopt a, .inr ⟨hparse, a, rfl, rfl⟩, h⟩
  · rw [if_neg hparse] at h
    exact .inr ⟨hcheck, m, .inl rfl, h⟩

/-- What is adopted from a node below has its first child below that one. -/
theorem adopt_firstChild {m a : Meaning} {f : Nat} (h : (m.adopt a).firstChild = some f) :
    a.firstChild = some f ∨ m.firstChild = some f := by
  cases ha : a.firstChild with
  | none => exact .inr (by simpa [adopt, ha] using h)
  | some g => exact .inl (by simpa [adopt, ha] using h)

/-- Captures that lead downwards keep the places right, one after the other. -/
theorem read_nested {search : Nat → Outcome (Option Meaning)}
    (hsearch : ∀ n m, search n = .ok (some m) → Nested t n m) (cs : List Capture)
    (m found : Meaning) (hbelow : ∀ c ∈ cs, c.tag = "child.first" → t.Below node c.node)
    (hasked : ∀ c ∈ cs, c.tag = "check_child" ∨ c.tag = "parse_child" → t.Below node c.node)
    (hnone : m.checked = none) (hfirst : ∀ f, m.firstChild = some f → t.Below node f)
    (h : read t search node true m cs = .ok (some found)) : Nested t node found := by
  induction cs generalizing m with
  | nil =>
    rw [read] at h
    split at h
    next =>
      obtain rfl : m = found := by simpa using h
      refine ⟨?_, ?_⟩
      · intro k hk
        rw [hnone] at hk
        exact absurd hk (by simp)
      · rw [hnone]
        exact hfirst
    next => exact absurd h (by simp)
  | cons c cs ih =>
    obtain ⟨hcheck, a, ha, rfl⟩ | ⟨hcheck, m', hm', hrest⟩ := read_cons h
    · -- the answer is that of the node below
      refine ⟨?_, fun f hf => (hsearch c.node a ha).first_below hf⟩
      intro k hk
      obtain rfl : c.node = k := by simpa using hk
      exact hasked c List.mem_cons_self (.inl hcheck)
    · refine ih (m'.note c.node c.tag) (fun c' hc' => hbelow c' (List.mem_cons_of_mem _ hc'))
        (fun c' hc' => hasked c' (List.mem_cons_of_mem _ hc')) ?_ ?_ hrest
      · rw [note_checked]
        rcases hm' with rfl | ⟨-, a, -, rfl⟩
        · exact hnone
        · exact hnone
      · intro f hf
        rcases note_firstChild hf with hf | ⟨htag, rfl⟩
        · rcases hm' with rfl | ⟨hparse, a, ha, rfl⟩
          · exact hfirst f hf
          · rcases adopt_firstChild hf with hf | hf
            · exact (hasked c List.mem_cons_self (.inr hparse)).trans
                ((hsearch c.node a ha).first_below hf)
            · exact hfirst f hf
        · exact hbelow c List.mem_cons_self htag

/-- The node that answers is the one that the first capture of its sort hands the question on to. -/
theorem read_checked {search : Nat → Outcome (Option Meaning)} (cs : List Capture)
    (m found : Meaning) (hnone : m.checked = none) {k : Nat} (hk : found.checked = some k)
    (h : read t search node true m cs = .ok (some found)) :
    ∃ c, cs.find? (fun c => c.tag = "check_child") = some c ∧ c.node = k := by
  induction cs generalizing m with
  | nil =>
    rw [read] at h
    split at h
    next =>
      obtain rfl : m = found := by simpa using h
      rw [hnone] at hk
      exact absurd hk (by simp)
    next => exact absurd h (by simp)
  | cons c cs ih =>
    obtain ⟨hcheck, a, -, rfl⟩ | ⟨hcheck, m', hm', hrest⟩ := read_cons h
    · exact ⟨c, List.find?_cons_of_pos (by simpa using hcheck), by simpa using hk⟩
    · rw [List.find?_cons_of_neg (by simpa using hcheck)]
      refine ih (m'.note c.node c.tag) ?_ hrest
      rw [note_checked]
      rcases hm' with rfl | ⟨-, a, -, rfl⟩
      · exact hnone
      · exact hnone

/-! ## §4. Trying queries. -/

/-- The answer is that of one of the queries, with its label. -/
theorem firstAnswer_some {answer : Query → Outcome (Option Meaning)} {found : Meaning} :
    ∀ queries : List Query, firstAnswer answer queries = .ok (some found) →
      ∃ q ∈ queries, ∃ m, answer q = .ok (some m)
        ∧ found = { m with query := m.query.or (some q.label) }
  | [], h => by
    rw [firstAnswer] at h
    exact absurd h (by simp)
  | q :: qs, h => by
    rw [firstAnswer] at h
    cases ha : answer q with
    | error e =>
      rw [ha] at h
      exact absurd h (by simp)
    | ok result =>
      rw [ha] at h
      cases result with
      | none =>
        obtain ⟨q', hq', m, hm⟩ := firstAnswer_some qs h
        exact ⟨q', List.mem_cons_of_mem _ hq', m, hm⟩
      | some m =>
        have hfound : { m with query := m.query.or (some q.label) } = found := by simpa using h
        exact ⟨q, List.mem_cons_self, m, ha, hfound.symm⟩

/-- What the queries say about a node is what one of them reads off its captures. -/
theorem search_ok {queries : List Query} {fuel : Nat} {found : Meaning}
    (h : search t table queries (fuel + 1) node = .ok (some found)) :
    ∃ q ∈ queries, ∃ m, read t (search t table queries fuel) node true {}
        (t.counted table q.label node) = .ok (some m)
      ∧ found = { m with query := m.query.or (some q.label) } := by
  rw [search] at h
  obtain ⟨q, hq, m, hm, rfl⟩ := firstAnswer_some _ h
  rw [read_false] at hm
  exact ⟨q, List.mem_of_mem_filter hq, m, hm, rfl⟩

/-- Questions that are handed on keep the places right, however often that happens. -/
theorem search_nested {queries : List Query} (hdescending : Descending t table queries) :
    ∀ (fuel node : Nat) (m : Meaning),
      search t table queries fuel node = .ok (some m) → Nested t node m
  | 0, _, _, h => by
    rw [search] at h
    exact absurd h (by simp)
  | fuel + 1, node, found, h => by
    obtain ⟨q, hq, m, hm, rfl⟩ := search_ok h
    have hnested := read_nested (search_nested hdescending fuel) _ _ _
      (hdescending.firstBelow q hq node) (hdescending.askedBelow q hq node) rfl
      (fun f hf => absurd hf (by simp)) hm
    exact ⟨hnested.checked, hnested.first⟩

theorem search_placed {queries : List Query} (hfaithful : Faithful t table queries) (fuel node : Nat)
    (found : Meaning) (h : search t table queries fuel node = .ok (some found)) :
    Placed t node found := by
  have hnested := search_nested hfaithful.toDescending fuel node found h
  refine ⟨?_, hnested.first⟩
  intro k hk
  refine ⟨hnested.checked k hk, ?_⟩
  cases fuel with
  | zero =>
    rw [search] at h
    exact absurd h (by simp)
  | succ fuel =>
    obtain ⟨q, hq, m, hm, rfl⟩ := search_ok h
    obtain ⟨c, hc, rfl⟩ := read_checked _ _ m rfl hk hm
    exact hfaithful.checkedStop q hq node c hc

/-- What a node means is what the queries say about it, or that nothing is known. -/
theorem ofNode_ok {dialect : Dialect} {m : Meaning}
    (h : ofNode t table dialect false node = .ok m) :
    search t table dialect.queries (t.nodes.size + 1) node = .ok (some m)
    ∨ (m.checked = none ∧ m.firstChild = none) := by
  unfold ofNode at h
  split at h
  next =>
    have hm : error = m := by simpa [pure, Except.pure] using h
    subst hm
    exact .inr ⟨rfl, rfl⟩
  next =>
    cases hs : search t table dialect.queries (t.nodes.size + 1) node with
    | error e =>
      rw [hs] at h
      exact absurd h (by simp [bind, Except.bind, pure, Except.pure])
    | ok answer =>
      rw [hs] at h
      have hm : answer.getD unknown = m := by
        simpa [bind, Except.bind, pure, Except.pure] using h
      subst hm
      cases answer with
      | none => exact .inr ⟨rfl, rfl⟩
      | some a => exact .inl rfl

/-- **What a node means leads downwards.** -/
theorem ofNode_nested {dialect : Dialect} (hdescending : Descending t table dialect.queries)
    {m : Meaning} (h : ofNode t table dialect false node = .ok m) : Nested t node m := by
  rcases ofNode_ok h with hs | ⟨hc, hf⟩
  · exact search_nested hdescending _ _ _ hs
  · exact nested_of_none hc hf

/-- **What a node means puts its first child in the right place.** -/
theorem ofNode_placed {dialect : Dialect} (hfaithful : Faithful t table dialect.queries)
    {m : Meaning} (h : ofNode t table dialect false node = .ok m) : Placed t node m := by
  rcases ofNode_ok h with hs | ⟨hc, hf⟩
  · exact search_placed hfaithful _ _ _ hs
  · refine ⟨?_, (nested_of_none hc hf).first⟩
    intro k hk
    rw [hc] at hk
    exact absurd hk (by simp)

end Meaning

end CodeAtlas

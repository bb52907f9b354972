import CodeAtlas.Chunk.Merge
import Mathlib.Data.List.Chain
import Mathlib.Logic.Function.Iterate
import Mathlib.Logic.Relation

/-!
# Joining neighbours

A round walks over the chunks from front to back.  At each point of the walk the finished chunks,
the chunk at hand and those still to come stand in one row, and a step of the walk leaves this row
as it is or joins two neighbours in it that fit together.  A chunk handed on to the next one and a
chunk put behind the last finished one are therefore the same thing, a join, and what holds after
any number of joins holds after any number of rounds.

A round in which nothing was joined has compared each chunk with one of its neighbours only, the
smaller one.  If all chunks were too small, that is enough: where the smaller neighbour does not
fit, the larger one does not either.

Main results:
  * `Chunk.mergeFrom_walks`: a round changes nothing, or makes one join or more;
  * `Chunk.mergeFrom_stuck`: after a round without a join no two neighbours fit together;
  * `Chunk.merge_runs`: joined chunks are runs of neighbours within the limit;
  * `Chunk.merge_stops`: the rounds end, and for which reason.
-/

namespace CodeAtlas.Chunk

open Relation (TransGen ReflTransGen)

variable {α : Type} (tokens : α → Int) (limits : ChunkLimits)

/-! ## §1. One join. -/

/-- Two neighbours that fit together become one chunk. -/
inductive Join : List (List α) → List (List α) → Prop
  | neighbours {front back : List (List α)} {a b : List α} :
    tokenSum tokens a + tokenSum tokens b ≤ limits.hardLimit →
    Join (front ++ a :: b :: back) (front ++ (a ++ b) :: back)

variable {tokens limits}

theorem Join.flatten_eq {chunks joined : List (List α)} (h : Join tokens limits chunks joined) :
    joined.flatten = chunks.flatten := by
  cases h
  simp

theorem Join.length_eq {chunks joined : List (List α)} (h : Join tokens limits chunks joined) :
    joined.length + 1 = chunks.length := by
  cases h
  simp
  omega

theorem Join.ne_nil {chunks joined : List (List α)} (h : Join tokens limits chunks joined) :
    joined ≠ [] := by
  cases h
  simp

theorem joins_flatten {chunks joined : List (List α)}
    (h : ReflTransGen (Join tokens limits) chunks joined) : joined.flatten = chunks.flatten := by
  induction h with
  | refl => rfl
  | tail _ hjoin ih => rw [hjoin.flatten_eq, ih]

theorem joins_ne_nil {chunks joined : List (List α)}
    (h : ReflTransGen (Join tokens limits) chunks joined) (hne : chunks ≠ []) : joined ≠ [] := by
  cases h with
  | refl => exact hne
  | tail _ hjoin => exact hjoin.ne_nil

/-- One join or more leave fewer chunks. -/
theorem joins_length {chunks joined : List (List α)}
    (h : TransGen (Join tokens limits) chunks joined) : joined.length < chunks.length := by
  induction h with
  | single hjoin =>
    have hlength := hjoin.length_eq
    omega
  | tail _ hjoin ih =>
    have hlength := hjoin.length_eq
    omega

/-! ## §2. Runs of neighbours. -/

variable (tokens limits) in
/-- The chunks are cut into runs of neighbours, and a run of several chunks stays within the hard
limit. -/
structure CutInto (chunks : List (List α)) (runs : List (List (List α))) : Prop where
  row : runs.flatten = chunks
  nonempty : ∀ run ∈ runs, run ≠ []
  fits : ∀ run ∈ runs, 2 ≤ run.length → tokenSum tokens run.flatten ≤ limits.hardLimit

/-- Each chunk is a run by itself. -/
theorem CutInto.single (chunks : List (List α)) :
    CutInto tokens limits chunks (chunks.map fun chunk => [chunk]) where
  row := by
    induction chunks with
    | nil => rfl
    | cons chunk rest ih => simp [ih]
  nonempty := by
    intro run hrun
    obtain ⟨chunk, -, rfl⟩ := List.mem_map.1 hrun
    simp
  fits := by
    intro run hrun hlength
    obtain ⟨chunk, -, rfl⟩ := List.mem_map.1 hrun
    simp at hlength

/-- A join of two chunks is a run made of two runs. -/
theorem CutInto.join {chunks : List (List α)} {runs : List (List (List α))}
    (h : CutInto tokens limits chunks runs) {joined : List (List α)}
    (hjoin : Join tokens limits (runs.map List.flatten) joined) :
    ∃ longer, CutInto tokens limits chunks longer ∧ joined = longer.map List.flatten := by
  generalize hmerged : runs.map List.flatten = merged at hjoin
  cases hjoin with
  | neighbours hfits =>
    -- the runs that the two neighbours were made of stand next to each other as well
    obtain ⟨front, others, rfl, rfl, hothers⟩ := List.map_eq_append_iff.1 hmerged
    obtain ⟨a, more, rfl, rfl, hmore⟩ := List.map_eq_cons_iff.1 hothers
    obtain ⟨b, back, rfl, rfl, rfl⟩ := List.map_eq_cons_iff.1 hmore
    refine ⟨front ++ (a ++ b) :: back, ⟨?_, ?_, ?_⟩, by simp⟩
    · rw [← h.row]
      simp
    · intro run hrun
      obtain hrun | hrun := List.mem_append.1 hrun
      · exact h.nonempty run (by simp [hrun])
      · obtain rfl | hrun := List.mem_cons.1 hrun
        · have := h.nonempty a (by simp)
          simp [this]
        · exact h.nonempty run (by simp [hrun])
    · intro run hrun hlength
      obtain hrun | hrun := List.mem_append.1 hrun
      · exact h.fits run (by simp [hrun]) hlength
      · obtain rfl | hrun := List.mem_cons.1 hrun
        · rw [List.flatten_append, tokenSum, tally_append]
          exact hfits
        · exact h.fits run (by simp [hrun]) hlength

/-- **Joins make runs.**  What comes from a row of chunks by joins are runs of neighbours. -/
theorem runs_of_joins {chunks joined : List (List α)}
    (h : ReflTransGen (Join tokens limits) chunks joined) :
    ∃ runs, CutInto tokens limits chunks runs ∧ joined = runs.map List.flatten := by
  induction h with
  | refl => exact ⟨_, .single chunks, by simp [Function.comp_def]⟩
  | tail _ hjoin ih =>
    obtain ⟨runs, hruns, rfl⟩ := ih
    exact hruns.join hjoin

/-! ## §3. One round. -/

variable (tokens limits) in
/-- A chunk that is to go behind the last finished one does so if both fit together, and else it is
finished by itself. -/
theorem Round.joinLast_cases (r : Round α) (chunk : List α) :
    (∃ front last, r.merged = front ++ [last] ∧
      tokenSum tokens last + tokenSum tokens chunk ≤ limits.hardLimit ∧
      r.joinLast tokens limits chunk = { merged := front ++ [last ++ chunk], joined := true }) ∨
    ((∀ last, r.merged.getLast? = some last →
        limits.hardLimit < tokenSum tokens last + tokenSum tokens chunk) ∧
      r.joinLast tokens limits chunk = r.keep chunk) := by
  unfold Round.joinLast
  cases hlast : r.merged.getLast? with
  | none => exact Or.inr ⟨by simp, rfl⟩
  | some last =>
    obtain ⟨front, hfront⟩ := List.getLast?_eq_some_iff.1 hlast
    by_cases hfits : tokenSum tokens last + tokenSum tokens chunk ≤ limits.hardLimit
    · refine Or.inl ⟨front, last, hfront, hfits, ?_⟩
      simp [hfits, hfront]
    · refine Or.inr ⟨?_, by simp [hfits]⟩
      intro other hother
      cases hother
      omega

variable (tokens limits) in
/-- A walk over a row of chunks leaves it as it was, or joins neighbours in it and says so. -/
def Walked (row : List (List α)) (joined : Bool) (out : Round α) : Prop :=
  (out.merged = row ∧ out.joined = joined) ∨
    (TransGen (Join tokens limits) row out.merged ∧ out.joined = true)

/-- A walk that goes on after a join has joined neighbours. -/
theorem Walked.after_join {row next : List (List α)} {joined : Bool} {out : Round α}
    (hjoin : Join tokens limits row next) (h : Walked tokens limits next true out) :
    Walked tokens limits row joined out := by
  obtain ⟨rfl, hjoined⟩ | ⟨hjoins, hjoined⟩ := h
  · exact Or.inr ⟨.single hjoin, hjoined⟩
  · exact Or.inr ⟨.head hjoin hjoins, hjoined⟩

variable (tokens limits) in
/-- **One round.**  The row of the finished chunks, the chunk at hand and those to come is left as
it was, or neighbours in it are joined. -/
theorem mergeFrom_walks (total : Nat) (rest : List (List α)) (before : Option (List α))
    (chunk : List α) (r : Round α) :
    Walked tokens limits (r.merged ++ chunk :: rest) r.joined
      (mergeFrom tokens limits total rest before chunk r) := by
  induction rest generalizing before chunk r with
  | nil =>
    have hkeep : Walked tokens limits (r.merged ++ [chunk]) r.joined (r.keep chunk) :=
      Or.inl ⟨rfl, rfl⟩
    unfold mergeFrom
    split
    · obtain ⟨front, last, hmerged, hfits, hlast⟩ | ⟨-, hlast⟩ :=
        r.joinLast_cases tokens limits chunk
      · rw [hlast, hmerged, List.append_assoc]
        exact Or.inr ⟨.single (.neighbours hfits), rfl⟩
      · rw [hlast]
        exact hkeep
    · exact hkeep
  | cons next rest ih =>
    -- finishing the chunk by itself moves a border inside the row, and changes nothing else
    have hkeep : Walked tokens limits (r.merged ++ chunk :: next :: rest) r.joined
        (mergeFrom tokens limits total rest (some chunk) next (r.keep chunk)) := by
      have hrow := ih (some chunk) next (r.keep chunk)
      rwa [show (r.keep chunk).merged ++ next :: rest = r.merged ++ chunk :: next :: rest from by
        simp [Round.keep]] at hrow
    unfold mergeFrom
    split
    · dsimp only
      split
      · -- backwards
        obtain ⟨front, last, hmerged, hfits, hlast⟩ | ⟨-, hlast⟩ :=
          r.joinLast_cases tokens limits chunk
        · rw [hlast, hmerged, List.append_assoc]
          refine Walked.after_join (.neighbours hfits) ?_
          have hrow := ih (some chunk) next { merged := front ++ [last ++ chunk], joined := true }
          rwa [List.append_assoc] at hrow
        · rw [hlast]
          exact hkeep
      · split
        · -- forwards
          rename_i hfits
          refine Walked.after_join (.neighbours (by omega)) ?_
          exact ih (some chunk) (chunk ++ next) { r with joined := true }
        · exact hkeep
    · exact hkeep

variable (tokens limits) in
theorem mergeRound_walks (chunks : List (List α)) :
    Walked tokens limits chunks false (mergeRound tokens limits chunks) := by
  cases chunks with
  | nil => exact Or.inl ⟨rfl, rfl⟩
  | cons chunk rest => exact mergeFrom_walks tokens limits _ rest none chunk {}

variable (tokens limits) in
/-- Two chunks that do not fit together. -/
def Apart (a b : List α) : Prop :=
  limits.hardLimit < tokenSum tokens a + tokenSum tokens b

/-- **A round without a join.**  If all chunks count as too small and none was joined, no two
neighbours fit together. -/
theorem mergeFrom_stuck {total : Nat} (hmany : limits.maxChunks < total) (rest : List (List α))
    (chunk : List α) (r : Round α)
    (hnone : (mergeFrom tokens limits total rest r.merged.getLast? chunk r).joined = false) :
    (r.merged.getLast?.toList ++ chunk :: rest).IsChain (Apart tokens limits) := by
  induction rest generalizing chunk r with
  | nil =>
    have hlast : (r.joinLast tokens limits chunk).joined = false := by
      simpa [mergeFrom, hmany] using hnone
    obtain ⟨front, last, -, -, hjoin⟩ | ⟨hapart, -⟩ :=
      r.joinLast_cases tokens limits chunk
    · rw [hjoin] at hlast
      cases hlast
    · cases hbefore : r.merged.getLast? with
      | none => exact .singleton chunk
      | some last => exact .cons_cons (hapart last hbefore) (.singleton chunk)
  | cons next rest ih =>
    have hkept : (r.keep chunk).merged.getLast? = some chunk := by simp [Round.keep]
    -- a round that goes on after a join says so at its end
    have hjoined : ∀ chunk' (r' : Round α), r'.joined = true →
        (mergeFrom tokens limits total rest (some chunk) chunk' r').joined = true := by
      intro chunk' r' hr'
      obtain ⟨-, h⟩ | ⟨-, h⟩ := mergeFrom_walks tokens limits total rest (some chunk) chunk' r'
      · rw [h, hr']
      · exact h
    have hrest : (mergeFrom tokens limits total rest (some chunk) next (r.keep chunk)).joined
        = false → (chunk :: next :: rest).IsChain (Apart tokens limits) := by
      intro hstuck
      have hchain := ih next (r.keep chunk) (by rw [hkept]; exact hstuck)
      rw [hkept] at hchain
      exact hchain
    rw [mergeFrom, if_pos (by simp [hmany])] at hnone
    dsimp only at hnone
    by_cases hback : (r.merged.getLast?.any fun b => tokenSum tokens b < tokenSum tokens next)
    · rw [if_pos hback] at hnone
      obtain ⟨front, last, -, -, hjoin⟩ | ⟨hapart, hkeep⟩ :=
        r.joinLast_cases tokens limits chunk
      · rw [hjoin, hjoined _ _ rfl] at hnone
        cases hnone
      · rw [hkeep] at hnone
        cases hbefore : r.merged.getLast? with
        | none => exact hrest hnone
        | some last => exact .cons_cons (hapart last hbefore) (hrest hnone)
    · rw [if_neg hback] at hnone
      by_cases hfits : tokenSum tokens next + tokenSum tokens chunk ≤ limits.hardLimit
      · rw [if_pos hfits, hjoined _ _ rfl] at hnone
        cases hnone
      · rw [if_neg hfits] at hnone
        cases hbefore : r.merged.getLast? with
        | none => exact hrest hnone
        | some last =>
          -- only the next chunk was tried, which is no larger than the one before
          have hsmaller : tokenSum tokens next ≤ tokenSum tokens last := by
            simpa [hbefore] using hback
          refine .cons_cons ?_ (hrest hnone)
          unfold Apart
          omega

theorem mergeRound_stuck {chunks : List (List α)} (hmany : limits.maxChunks < chunks.length)
    (hnone : (mergeRound tokens limits chunks).joined = false) :
    chunks.IsChain (Apart tokens limits) := by
  cases chunks with
  | nil => exact .nil
  | cons chunk rest => exact mergeFrom_stuck hmany rest chunk {} hnone

/-! ## §4. All rounds. -/

variable (tokens limits) in
/-- The chunks after one round. -/
def afterRound (chunks : List (List α)) : List (List α) :=
  (mergeRound tokens limits chunks).merged

variable (tokens limits) in
/-- Another round follows: chunks were joined, and they are not few enough yet. -/
def GoesOn (chunks : List (List α)) : Prop :=
  (mergeRound tokens limits chunks).joined = true ∧
    limits.maxChunks ≤ (afterRound tokens limits chunks).length

theorem GoesOn.joins {chunks : List (List α)} (h : GoesOn tokens limits chunks) :
    TransGen (Join tokens limits) chunks (afterRound tokens limits chunks) := by
  obtain ⟨-, hjoined⟩ | ⟨hjoins, -⟩ := mergeRound_walks tokens limits chunks
  · rw [h.1] at hjoined
    cases hjoined
  · exact hjoins

/-- Rounds follow each other as long as there is a reason to, whatever they leave. -/
theorem mergeRounds_again {chunks : List (List α)} (h : GoesOn tokens limits chunks) :
    mergeRounds tokens limits chunks
      = mergeRounds tokens limits (afterRound tokens limits chunks) := by
  have hshorter : (mergeRound tokens limits chunks).merged.length < chunks.length :=
    joins_length h.joins
  have hreason : ((mergeRound tokens limits chunks).joined
      && decide (limits.maxChunks ≤ (mergeRound tokens limits chunks).merged.length)) = true := by
    rw [h.1, Bool.true_and]
    exact decide_eq_true h.2
  rw [mergeRounds]
  simp only [hreason, if_true, dif_pos hshorter]
  rfl

theorem mergeRounds_last {chunks : List (List α)} (h : ¬ GoesOn tokens limits chunks) :
    mergeRounds tokens limits chunks = afterRound tokens limits chunks := by
  have hreason : ¬ ((mergeRound tokens limits chunks).joined
      && decide (limits.maxChunks ≤ (mergeRound tokens limits chunks).merged.length)) = true := by
    intro hboth
    rw [Bool.and_eq_true, decide_eq_true_eq] at hboth
    exact h hboth
  rw [mergeRounds]
  simp only [if_neg hreason]
  rfl

variable (tokens limits) in
theorem afterRound_joins (chunks : List (List α)) :
    ReflTransGen (Join tokens limits) chunks (afterRound tokens limits chunks) := by
  obtain ⟨hsame, -⟩ | ⟨hjoins, -⟩ := mergeRound_walks tokens limits chunks
  · rw [afterRound, hsame]
  · exact hjoins.to_reflTransGen

variable (tokens limits) in
/-- The rounds before the last one only join neighbours. -/
theorem mergeRounds_ends (chunks : List (List α)) :
    ∃ earlier, ReflTransGen (Join tokens limits) chunks earlier ∧ ¬ GoesOn tokens limits earlier ∧
      mergeRounds tokens limits chunks = afterRound tokens limits earlier := by
  induction hlength : chunks.length using Nat.strongRecOn generalizing chunks with
  | ind length ih =>
    by_cases hon : GoesOn tokens limits chunks
    · have hshorter := joins_length hon.joins
      obtain ⟨earlier, hjoins, hstop, hlast⟩ := ih _ (by omega) (afterRound tokens limits chunks) rfl
      exact ⟨earlier, hon.joins.to_reflTransGen.trans hjoins, hstop,
        (mergeRounds_again hon).trans hlast⟩
    · exact ⟨chunks, .refl, hon, mergeRounds_last hon⟩

variable (tokens limits) in
/-- **All rounds.**  However many there are, they only join neighbours. -/
theorem mergeRounds_joins (chunks : List (List α)) :
    ReflTransGen (Join tokens limits) chunks (mergeRounds tokens limits chunks) := by
  obtain ⟨earlier, hjoins, -, hlast⟩ := mergeRounds_ends tokens limits chunks
  rw [hlast]
  exact hjoins.trans (afterRound_joins tokens limits earlier)

/-- After the last round there are few enough chunks, or no two neighbours fit together. -/
theorem afterRound_settled {chunks : List (List α)} (h : ¬ GoesOn tokens limits chunks) :
    (afterRound tokens limits chunks).length ≤ limits.maxChunks ∨
      (afterRound tokens limits chunks).IsChain (Apart tokens limits) := by
  by_cases hjoined : (mergeRound tokens limits chunks).joined = true
  · left
    by_contra hmany
    exact h ⟨hjoined, by omega⟩
  · have hnone : (mergeRound tokens limits chunks).joined = false := Bool.eq_false_iff.2 hjoined
    -- nothing was joined, so the chunks are those that the round began with
    have hsame : afterRound tokens limits chunks = chunks := by
      obtain ⟨hsame, -⟩ | ⟨-, hyes⟩ :=
        mergeRound_walks tokens limits chunks
      · exact hsame
      · exact absurd hyes hjoined
    rw [hsame]
    by_cases hmany : limits.maxChunks < chunks.length
    · exact Or.inr (mergeRound_stuck hmany hnone)
    · exact Or.inl (by omega)

theorem merge_of_ne_nil {chunks : List (List α)} (h : chunks ≠ []) :
    merge tokens limits chunks = .ok (mergeRounds tokens limits chunks) := by
  unfold merge
  rw [if_neg (by simpa using h)]

variable (tokens limits) in
/-- Rounds in a row: as many as have a reason to be followed by another one, and then one more. -/
theorem mergeRounds_iterate {chunks : List (List α)} (hne : chunks ≠ []) :
    ∃ n < chunks.length,
      (∀ k < n, GoesOn tokens limits ((afterRound tokens limits)^[k] chunks)) ∧
      ¬ GoesOn tokens limits ((afterRound tokens limits)^[n] chunks) ∧
      mergeRounds tokens limits chunks = (afterRound tokens limits)^[n + 1] chunks := by
  induction hlength : chunks.length using Nat.strongRecOn generalizing chunks with
  | ind length ih =>
    by_cases hon : GoesOn tokens limits chunks
    · have hshorter := joins_length hon.joins
      have hne' := joins_ne_nil hon.joins.to_reflTransGen hne
      obtain ⟨n, hn, hbefore, hlast, hresult⟩ := ih _ (by omega) hne' rfl
      refine ⟨n + 1, by omega, ?_, hlast, ?_⟩
      · intro k hk
        cases k with
        | zero => exact hon
        | succ k => exact hbefore k (by omega)
      · rw [mergeRounds_again hon, hresult]
        rfl
    · have hpos : 0 < chunks.length := List.length_pos_iff.2 hne
      exact ⟨0, by omega, by simp, hon, mergeRounds_last hon⟩

/-! ## §5. What joining gives. -/

/-- **Only neighbours are joined.**  Chunks are joined by cutting their row into runs of neighbours
and putting each run into one chunk, so that the blocks stay in their order; a run of several chunks
is no larger than the hard limit. -/
theorem merge_runs (tokens : α → Int) (limits : ChunkLimits) {chunks : List (List α)}
    (hne : chunks ≠ []) :
    ∃ runs : List (List (List α)), merge tokens limits chunks = .ok (runs.map List.flatten) ∧
      runs.flatten = chunks ∧ (∀ run ∈ runs, run ≠ []) ∧
      (runs.map List.flatten).flatten = chunks.flatten ∧
      ∀ run ∈ runs, 2 ≤ run.length → tokenSum tokens run.flatten ≤ limits.hardLimit := by
  have hjoins := mergeRounds_joins tokens limits chunks
  obtain ⟨runs, hruns, hmerged⟩ := runs_of_joins hjoins
  refine ⟨runs, ?_, hruns.row, hruns.nonempty, ?_, hruns.fits⟩
  · rw [merge_of_ne_nil hne, hmerged]
  · rw [← hmerged]
    exact joins_flatten hjoins

/-- The first four chunks, one of which is empty, are handed on from one to the next up to the hard
limit. -/
theorem merge_runs_withEmpty :
    let chunks : List (List Int) := [[3], [1], [], [4], [9]]
    let limits : ChunkLimits := { minSize := 5, hardLimit := 8, maxChunks := 2 }
    chunks ≠ [] ∧ merge id limits chunks = .ok [[3, 1, 4], [9]] ∧
      ∃ runs : List (List (List Int)), merge id limits chunks = .ok (runs.map List.flatten) ∧
        runs.flatten = chunks ∧ (∀ run ∈ runs, run ≠ []) ∧
        (runs.map List.flatten).flatten = chunks.flatten ∧
        ∀ run ∈ runs, 2 ≤ run.length → tokenSum id run.flatten ≤ limits.hardLimit :=
  ⟨by decide, by decide +kernel, merge_runs id _ (by decide)⟩

/-- **Joining ends, and for a reason.**  After fewer rounds than there are chunks comes one that no
other follows, where each round before it has left fewer chunks; its chunks are the answer.  Then
there are few enough of them, or no two neighbours fit together. -/
theorem merge_stops (tokens : α → Int) (limits : ChunkLimits) {chunks : List (List α)}
    (hne : chunks ≠ []) :
    ∃ n < chunks.length, ∃ merged,
      (∀ k < n, GoesOn tokens limits ((afterRound tokens limits)^[k] chunks) ∧
        ((afterRound tokens limits)^[k + 1] chunks).length
          < ((afterRound tokens limits)^[k] chunks).length) ∧
      ¬ GoesOn tokens limits ((afterRound tokens limits)^[n] chunks) ∧
      merged = (afterRound tokens limits)^[n + 1] chunks ∧
      merge tokens limits chunks = .ok merged ∧
      (merged.length ≤ limits.maxChunks ∨
        merged.IsChain fun a b => limits.hardLimit < tokenSum tokens a + tokenSum tokens b) := by
  obtain ⟨n, hn, hbefore, hlast, hresult⟩ :=
    mergeRounds_iterate tokens limits hne
  refine ⟨n, hn, _, ?_, hlast, rfl, ?_, ?_⟩
  · intro k hk
    refine ⟨hbefore k hk, ?_⟩
    rw [Function.iterate_succ_apply']
    exact joins_length (hbefore k hk).joins
  · rw [merge_of_ne_nil hne, hresult]
  · rw [Function.iterate_succ_apply']
    exact afterRound_settled hlast

theorem merge_stops_apart :
    let chunks : List (List Int) := [[1], [1], [7], [7]]
    let limits : ChunkLimits := { minSize := 1, hardLimit := 8, maxChunks := 1 }
    chunks ≠ [] ∧ merge id limits chunks = .ok [[1, 1], [7], [7]] ∧
      ∃ n < chunks.length, ∃ merged,
        (∀ k < n, GoesOn id limits ((afterRound id limits)^[k] chunks) ∧
          ((afterRound id limits)^[k + 1] chunks).length
            < ((afterRound id limits)^[k] chunks).length) ∧
        ¬ GoesOn id limits ((afterRound id limits)^[n] chunks) ∧
        merged = (afterRound id limits)^[n + 1] chunks ∧ merge id limits chunks = .ok merged ∧
        (merged.length ≤ limits.maxChunks ∨
          merged.IsChain fun a b => limits.hardLimit < tokenSum id a + tokenSum id b) :=
  ⟨by decide, by decide +kernel, merge_stops id _ (by decide)⟩

end CodeAtlas.Chunk

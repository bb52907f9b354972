import CodeAtlas.Proofs.Chunk.Joining

/-!
# Empty chunks among others

An empty chunk is too small to be left alone, so a round of joining tries to put it to the smaller one
of its neighbours.  It is left if that one is above the hard limit, and then both are: a chunk above
the limit has not been joined with anything, so the chunks that were compared are those that stand
there.  Such a chunk is stranded, since its neighbours are never joined with anything later either.

A round compares a chunk with the one that stood in front of it at first, which may have gone into the
chunk itself.  For an empty chunk this cannot be, if no two neighbours were empty.

With a least size of zero or less, an empty chunk is too small only while there are too many chunks,
and neighbours may both be empty.  Then a row of empty chunks can be stranded, of which one is left.

Main results:
  * `Chunk.mergeFrom_shut`: what a round leaves empty stands between chunks that are too large;
  * `Chunk.nil_mem_mergeRounds`: an empty chunk is left if and only if it was stranded at the start;
  * `Chunk.mergeRounds_of_few`: with a least size of zero or less, an empty chunk is not too small;
  * `Chunk.nil_mem_mergeRounds_of_many`: nor is it left then, unless it was stranded, where there are
    too many chunks and no neighbours are empty, or too many are left.
-/

namespace CodeAtlas.Chunk

open Relation (ReflTransGen)

variable {α : Type} (tokens : α → Int) (limits : ChunkLimits)

/-! ## §1. Stranded chunks. -/

/-- In front of each empty chunk but the first stands one with a property. -/
def Guarded (Q : List α → Prop) (chunks : List (List α)) : Prop :=
  chunks.IsChain fun a b => b = [] → Q a

/-- No two neighbours are both empty. -/
def Spaced (chunks : List (List α)) : Prop :=
  Guarded (· ≠ []) chunks

/-- The chunks right in front of a place and right behind it are too large to be joined with
anything. -/
structure Shut (front back : List (List α)) : Prop where
  before : ∀ last ∈ front.getLast?, limits.hardLimit < tokenSum tokens last
  behind : ∀ next ∈ back.head?, limits.hardLimit < tokenSum tokens next

/-- There is an empty chunk whose neighbours are too large. -/
def Stranded (chunks : List (List α)) : Prop :=
  ∃ front back, chunks = front ++ [] :: back ∧ Shut tokens limits front back

/-- There is a row of empty chunks between chunks that are too large. -/
def StrandedRow (chunks : List (List α)) : Prop :=
  ∃ front n back, chunks = front ++ [] :: (List.replicate n [] ++ back) ∧
    Shut tokens limits front back

variable {tokens limits}

theorem tokenSum_append (xs ys : List α) :
    tokenSum tokens (xs ++ ys) = tokenSum tokens xs + tokenSum tokens ys :=
  tally_append tokens xs ys

theorem tokenSum_nil : tokenSum tokens ([] : List α) = 0 :=
  rfl

theorem guarded_around {Q : List α → Prop} {front back : List (List α)} {chunk : List α}
    (hfront : Guarded Q front) (hchunk : chunk ≠ []) (hback : Guarded Q (chunk :: back)) :
    Guarded Q (front ++ chunk :: back) := by
  refine List.isChain_append.2 ⟨hfront, hback, ?_⟩
  intro _ _ next hnext hempty
  cases hnext
  exact absurd hempty hchunk

/-- Neighbours in a spaced row make a chunk that is not empty. -/
theorem Spaced.neighbours {front back : List (List α)} {a b : List α}
    (h : Spaced (front ++ a :: b :: back)) : a ++ b ≠ [] := by
  obtain ⟨-, hrest, -⟩ := List.isChain_append.1 h
  have hsome : b = [] → a ≠ [] := (List.isChain_cons.1 hrest).1 b rfl
  rw [ne_eq, List.append_eq_nil_iff]
  tauto

/-- Where no two neighbours are empty, a row of empty chunks is one of them. -/
theorem Spaced.strandedRow_iff {chunks : List (List α)} (h : Spaced chunks) :
    StrandedRow tokens limits chunks ↔ Stranded tokens limits chunks := by
  constructor
  · rintro ⟨front, n, back, rfl, hshut⟩
    cases n with
    | zero => exact ⟨front, back, rfl, hshut⟩
    | succ n => exact absurd rfl h.neighbours
  · rintro ⟨front, back, rfl, hshut⟩
    exact ⟨front, 0, back, rfl, hshut⟩

theorem Spaced.join {chunks joined : List (List α)} (h : Spaced chunks)
    (hjoin : Join tokens limits chunks joined) : Spaced joined := by
  cases hjoin with
  | @neighbours front back a b hfits =>
    obtain ⟨hfront, hrest, -⟩ := List.isChain_append.1 h
    have hback := (List.isChain_cons.1 (List.isChain_cons.1 hrest).2).2
    exact guarded_around hfront h.neighbours
      (List.isChain_cons.2 ⟨fun _ _ _ => h.neighbours, hback⟩)

/-- A join makes no size negative. -/
theorem Join.nonneg {chunks joined : List (List α)} (hjoin : Join tokens limits chunks joined)
    (h : ∀ c ∈ chunks, 0 ≤ tokenSum tokens c) : ∀ c ∈ joined, 0 ≤ tokenSum tokens c := by
  cases hjoin with
  | @neighbours front back a b hfits =>
    have ha := h a (by simp)
    have hb := h b (by simp)
    intro c hc
    simp only [List.mem_append, List.mem_cons] at hc
    obtain hc | rfl | hc := hc
    · exact h c (by simp [hc])
    · rw [tokenSum_append]
      omega
    · exact h c (by simp [hc])

theorem joins_nonneg {chunks joined : List (List α)}
    (h : ReflTransGen (Join tokens limits) chunks joined)
    (hnonneg : ∀ c ∈ chunks, 0 ≤ tokenSum tokens c) : ∀ c ∈ joined, 0 ≤ tokenSum tokens c := by
  induction h with
  | refl => exact hnonneg
  | tail _ hjoin ih => exact hjoin.nonneg ih

theorem spaced_joins {chunks joined : List (List α)} (h : Spaced chunks)
    (hjoins : ReflTransGen (Join tokens limits) chunks joined) : Spaced joined := by
  induction hjoins with
  | refl => exact h
  | tail _ hjoin ih => exact ih.join hjoin

/-! ## §2. One round. -/

/-- An empty chunk in a row is its last chunk, or stands in front of that one. -/
theorem split_concat {chunks front back : List (List α)} {chunk : List α}
    (h : chunks ++ [chunk] = front ++ [] :: back) :
    chunk = [] ∧ chunks = front ∧ back = [] ∨
      ∃ shorter, back = shorter ++ [chunk] ∧ chunks = front ++ [] :: shorter := by
  obtain rfl | ⟨shorter, last, rfl⟩ := back.eq_nil_or_concat
  · obtain ⟨hfront, hchunk⟩ := List.append_inj' h rfl
    exact Or.inl ⟨List.singleton_inj.1 hchunk, hfront, rfl⟩
  · rw [List.concat_eq_append, ← List.cons_append, ← List.append_assoc] at h
    obtain ⟨hfront, hchunk⟩ := List.append_inj' h rfl
    rw [List.singleton_inj.1 hchunk]
    exact Or.inr ⟨shorter, List.concat_eq_append, hfront⟩

variable (tokens limits) in
/-- Each empty chunk of a row stands between chunks that are too large, if `more` follows the row. -/
def AllShut (chunks more : List (List α)) : Prop :=
  ∀ front back, chunks = front ++ [] :: back → Shut tokens limits front (back ++ more)

theorem AllShut.keep {chunks more : List (List α)} {chunk : List α}
    (h : AllShut tokens limits chunks [chunk])
    (hchunk : chunk = [] → Shut tokens limits chunks more) :
    AllShut tokens limits (chunks ++ [chunk]) more := by
  intro front back hrow
  obtain ⟨hempty, rfl, rfl⟩ | ⟨shorter, rfl, hfront⟩ := split_concat hrow
  · exact hchunk hempty
  · obtain ⟨hbefore, hbehind⟩ := h front shorter hfront
    refine ⟨hbefore, ?_⟩
    cases shorter with
    | nil => exact hbehind
    | cons first others => exact hbehind

/-- A chunk that fits behind the last one is not put to an empty chunk, which has only chunks beside
it that are too large. -/
theorem AllShut.join {chunks more : List (List α)} {last chunk : List α}
    (h : AllShut tokens limits (chunks ++ [last]) [chunk])
    (hfits : tokenSum tokens last + tokenSum tokens chunk ≤ limits.hardLimit)
    (hlast : 0 ≤ tokenSum tokens last) (hchunk : 0 ≤ tokenSum tokens chunk) :
    AllShut tokens limits (chunks ++ [last ++ chunk]) more := by
  intro front back hrow
  obtain ⟨hempty, rfl, rfl⟩ | ⟨shorter, rfl, rfl⟩ := split_concat hrow
  · obtain ⟨rfl, -⟩ := List.append_eq_nil_iff.1 hempty
    have hlarge := (h chunks [] rfl).behind chunk rfl
    omega
  · obtain ⟨hbefore, hbehind⟩ := h front (shorter ++ [last]) (by simp)
    refine ⟨hbefore, ?_⟩
    cases shorter with
    | nil =>
      have hlarge := hbehind last rfl
      omega
    | cons first others => exact hbehind

variable (tokens limits) in
/-- What holds at each point of a round: what was left empty stands between chunks that are too large,
and an empty chunk at hand is compared with the chunk that stands in front of it, or in place of that
one with a part of it, neither of which is too large. -/
structure Walking (before : Option (List α)) (chunk : List α) (rest : List (List α)) (r : Round α) :
    Prop where
  spaced : Spaced (r.merged ++ chunk :: rest)
  nonneg : ∀ c ∈ r.merged ++ chunk :: rest, 0 ≤ tokenSum tokens c
  shut : AllShut tokens limits r.merged [chunk]
  first : chunk = [] → before = none → r.merged = []
  compared : chunk = [] → ∀ b ∈ before, ∃ last ∈ r.merged.getLast?,
    last = b ∨ tokenSum tokens b ≤ limits.hardLimit ∧ tokenSum tokens last ≤ limits.hardLimit

namespace Walking

variable {before : Option (List α)} {chunk next : List α} {rest : List (List α)} {r : Round α}

theorem keep (h : Walking tokens limits before chunk (next :: rest) r)
    (hchunk : chunk = [] → Shut tokens limits r.merged [next]) :
    Walking tokens limits (some chunk) next rest (r.keep chunk) := by
  have hrow : (r.keep chunk).merged ++ next :: rest = r.merged ++ chunk :: next :: rest := by
    simp [Round.keep]
  have hlast : (r.keep chunk).merged.getLast? = some chunk := by simp [Round.keep]
  refine ⟨hrow ▸ h.spaced, hrow ▸ h.nonneg, h.shut.keep hchunk,
    fun _ hnone => absurd hnone (Option.some_ne_none _), ?_⟩
  intro _ b hb
  cases hb
  exact ⟨chunk, hlast, Or.inl rfl⟩

theorem joinBack {front : List (List α)} {last : List α}
    (h : Walking tokens limits before chunk (next :: rest) r) (hmerged : r.merged = front ++ [last])
    (hfits : tokenSum tokens last + tokenSum tokens chunk ≤ limits.hardLimit) :
    Walking tokens limits (some chunk) next rest
      { merged := front ++ [last ++ chunk], joined := true } := by
  obtain ⟨hspaced, hnonneg, hshut, -, -⟩ := h
  rw [hmerged, List.append_assoc] at hspaced hnonneg
  rw [hmerged] at hshut
  have hlast : 0 ≤ tokenSum tokens last := hnonneg last (by simp)
  have hchunk : 0 ≤ tokenSum tokens chunk := hnonneg chunk (by simp)
  have hjoin : Join tokens limits (front ++ last :: chunk :: next :: rest)
      (front ++ (last ++ chunk) :: next :: rest) := .neighbours hfits
  refine ⟨?_, ?_, hshut.join hfits hlast hchunk,
    fun _ hnone => absurd hnone (Option.some_ne_none _), ?_⟩
  · rw [List.append_assoc]
    exact hspaced.join hjoin
  · rw [List.append_assoc]
    exact hjoin.nonneg hnonneg
  · intro _ b hb
    cases hb
    refine ⟨last ++ chunk, by simp, Or.inr ⟨by omega, ?_⟩⟩
    rw [tokenSum_append]
    exact hfits

theorem joinNext (h : Walking tokens limits before chunk (next :: rest) r)
    (hfits : tokenSum tokens chunk + tokenSum tokens next ≤ limits.hardLimit) :
    Walking tokens limits (some chunk) (chunk ++ next) rest { r with joined := true } := by
  have hchunk : 0 ≤ tokenSum tokens chunk := h.nonneg chunk (by simp)
  have hnext : 0 ≤ tokenSum tokens next := h.nonneg next (by simp)
  have hsome : chunk ++ next ≠ [] := h.spaced.neighbours
  have hjoin : Join tokens limits (r.merged ++ chunk :: next :: rest)
      (r.merged ++ (chunk ++ next) :: rest) := .neighbours hfits
  refine ⟨h.spaced.join hjoin, hjoin.nonneg h.nonneg, ?_, fun hempty => absurd hempty hsome,
    fun hempty => absurd hempty hsome⟩
  -- a chunk right behind an empty one is too large to be joined with the next
  intro front back hrow
  obtain ⟨hbefore, hbehind⟩ := h.shut front back hrow
  refine ⟨hbefore, ?_⟩
  cases back with
  | nil =>
    have hlarge := hbehind chunk rfl
    omega
  | cons first others => exact hbehind

/-- An empty chunk for which the chunk in front was tried, since that one is the smaller one. -/
theorem shut_of_back (h : Walking tokens limits before [] (next :: rest) r)
    (hbefore : ∃ b ∈ before, tokenSum tokens b < tokenSum tokens next)
    (hlast : ∀ last, r.merged.getLast? = some last → limits.hardLimit < tokenSum tokens last) :
    Shut tokens limits r.merged [next] := by
  refine ⟨hlast, ?_⟩
  intro other hother
  cases hother
  obtain ⟨b, hb, hsmaller⟩ := hbefore
  obtain ⟨last, hmerged, rfl | ⟨-, hle⟩⟩ := h.compared rfl b hb
  · have hlarge := hlast last hmerged
    omega
  · have hlarge := hlast last hmerged
    omega

/-- An empty chunk for which the next chunk was tried, since the one in front is no smaller. -/
theorem shut_of_next (h : Walking tokens limits before [] (next :: rest) r)
    (hbefore : ∀ b ∈ before, tokenSum tokens next ≤ tokenSum tokens b)
    (hnext : limits.hardLimit < tokenSum tokens next) : Shut tokens limits r.merged [next] := by
  refine ⟨?_, ?_⟩
  · intro last hlast
    cases hfirst : before with
    | none =>
      rw [h.first rfl hfirst] at hlast
      cases hlast
    | some b =>
      have hlarge := hbefore b hfirst
      obtain ⟨other, hother, rfl | ⟨hle, -⟩⟩ := h.compared rfl b hfirst
      · cases hlast.symm.trans hother
        omega
      · omega
  · intro other hother
    cases hother
    exact hnext

end Walking

/-- **One round.**  What it leaves empty stands between chunks that are too large, if an empty chunk
counts as too small. -/
theorem mergeFrom_shut {total : Nat} (hsmall : 0 < limits.minSize ∨ limits.maxChunks < total)
    (rest : List (List α)) (before : Option (List α)) (chunk : List α) (r : Round α)
    (h : Walking tokens limits before chunk rest r) :
    AllShut tokens limits (mergeFrom tokens limits total rest before chunk r).merged [] := by
  -- an empty chunk is kept only after a neighbour was tried
  have htried : (decide (tokenSum tokens ([] : List α) < limits.minSize) ||
      decide (limits.maxChunks < total)) = true := by
    rwa [Bool.or_eq_true, decide_eq_true_eq, decide_eq_true_eq]
  induction rest generalizing before chunk r with
  | nil =>
    unfold mergeFrom
    split
    · obtain ⟨front, last, hmerged, hfits, hlast⟩ | ⟨hapart, hlast⟩ :=
        r.joinLast_cases tokens limits chunk
      · rw [hlast]
        refine AllShut.join (hmerged ▸ h.shut) hfits (h.nonneg last ?_) (h.nonneg chunk (by simp))
        simp [hmerged]
      · rw [hlast]
        refine h.shut.keep ?_
        rintro rfl
        refine ⟨fun last hmerged => ?_, by simp⟩
        simpa [tokenSum_nil] using hapart last hmerged
    · rename_i hlarge
      refine h.shut.keep ?_
      rintro rfl
      exact absurd htried hlarge
  | cons next rest ih =>
    unfold mergeFrom
    split
    · dsimp only
      split
      · rename_i hback
        obtain ⟨front, last, hmerged, hfits, hlast⟩ | ⟨hapart, hlast⟩ :=
          r.joinLast_cases tokens limits chunk
        · rw [hlast]
          exact ih _ _ _ (h.joinBack hmerged hfits)
        · rw [hlast]
          refine ih _ _ _ (h.keep ?_)
          rintro rfl
          apply h.shut_of_back
          · simpa [Option.any_eq_true] using hback
          · simpa [tokenSum_nil] using hapart
      · rename_i hback
        split
        · rename_i hfits
          exact ih _ _ _ (h.joinNext (by omega))
        · rename_i hfits
          refine ih _ _ _ (h.keep ?_)
          rintro rfl
          apply h.shut_of_next
          · intro b hb
            cases hb
            simpa using hback
          · rw [tokenSum_nil] at hfits
            omega
    · rename_i hlarge
      refine ih _ _ _ (h.keep ?_)
      rintro rfl
      exact absurd htried hlarge

/-! ## §3. All rounds. -/

theorem afterRound_shut {chunks : List (List α)}
    (hsmall : 0 < limits.minSize ∨ limits.maxChunks < chunks.length) (hspaced : Spaced chunks)
    (hnonneg : ∀ c ∈ chunks, 0 ≤ tokenSum tokens c) :
    AllShut tokens limits (afterRound tokens limits chunks) [] := by
  cases chunks with
  | nil =>
    intro front back hrow
    simp [afterRound, mergeRound] at hrow
  | cons chunk rest =>
    refine mergeFrom_shut hsmall rest none chunk {} ⟨hspaced, hnonneg, ?_, fun _ _ => rfl, by simp⟩
    intro front back hrow
    simp at hrow

/-- What the last round leaves empty is stranded. -/
theorem mergeRounds_shut (hmin : 0 < limits.minSize) {chunks : List (List α)}
    (hspaced : Spaced chunks) (hnonneg : ∀ c ∈ chunks, 0 ≤ tokenSum tokens c) :
    AllShut tokens limits (mergeRounds tokens limits chunks) [] := by
  obtain ⟨earlier, hjoins, -, hlast⟩ := mergeRounds_ends tokens limits chunks
  rw [hlast]
  exact afterRound_shut (Or.inl hmin) (spaced_joins hspaced hjoins) (joins_nonneg hjoins hnonneg)

/-- A run that makes a chunk above the hard limit is that chunk. -/
theorem CutInto.single_of_large {chunks : List (List α)} {runs : List (List (List α))}
    (h : CutInto tokens limits chunks runs) {run : List (List α)} (hrun : run ∈ runs)
    (hlarge : limits.hardLimit < tokenSum tokens run.flatten) : run = [run.flatten] := by
  match run, hrun, hlarge with
  | [], hrun, _ => exact absurd rfl (h.nonempty [] hrun)
  | [single], _, _ => simp
  | first :: second :: others, hrun, hlarge =>
    have hfits := h.fits _ hrun (by simp)
    omega

/-- A run that makes an empty chunk is a row of empty chunks. -/
theorem exists_replicate_of_flatten_nil {run : List (List α)} (hne : run ≠ [])
    (hempty : run.flatten = []) : ∃ n, run = [] :: List.replicate n [] := by
  obtain ⟨first, others, rfl⟩ := List.exists_cons_of_ne_nil hne
  rw [List.flatten_eq_nil_iff] at hempty
  refine ⟨others.length, ?_⟩
  rw [hempty first (by simp), ← List.eq_replicate_of_mem fun c hc => hempty c (by simp [hc])]

/-- What is stranded after joining was a stranded row before. -/
theorem CutInto.strandedRow {chunks : List (List α)} {runs : List (List (List α))}
    (h : CutInto tokens limits chunks runs)
    (hstranded : Stranded tokens limits (runs.map List.flatten)) :
    StrandedRow tokens limits chunks := by
  obtain ⟨front, back, hrow, hshut⟩ := hstranded
  obtain ⟨runsBefore, others, rfl, rfl, hothers⟩ := List.map_eq_append_iff.1 hrow
  obtain ⟨run, runsBehind, rfl, hempty, rfl⟩ := List.map_eq_cons_iff.1 hothers
  obtain ⟨n, hrun⟩ := exists_replicate_of_flatten_nil (h.nonempty run (by simp)) hempty
  refine ⟨runsBefore.flatten, n, runsBehind.flatten, ?_, ?_, ?_⟩
  · rw [← h.row, hrun]
    simp
  · intro last hlast
    obtain rfl | ⟨shorter, run', rfl⟩ := runsBefore.eq_nil_or_concat
    · cases hlast
    · rw [List.concat_eq_append] at *
      have hlarge : limits.hardLimit < tokenSum tokens run'.flatten :=
        hshut.before _ (by simp)
      rw [List.flatten_append, h.single_of_large (by simp) hlarge] at hlast
      simp only [List.flatten_singleton, List.getLast?_concat, Option.mem_some_iff] at hlast
      rw [← hlast]
      exact hlarge
  · intro next hnext
    cases runsBehind with
    | nil => cases hnext
    | cons run' shorter =>
      have hlarge : limits.hardLimit < tokenSum tokens run'.flatten :=
        hshut.behind _ (by simp)
      rw [List.flatten_cons, h.single_of_large (by simp) hlarge] at hnext
      cases hnext
      exact hlarge

/-- A chunk of a row stands in one of the runs that the row is cut into. -/
theorem exists_run {chunks front back : List (List α)} {runs : List (List (List α))} {chunk : List α}
    (h : CutInto tokens limits chunks runs) (hrow : chunks = front ++ chunk :: back) :
    ∃ runsBefore left right runsBehind, runs = runsBefore ++ (left ++ chunk :: right) :: runsBehind ∧
      front = runsBefore.flatten ++ left ∧ back = right ++ runsBehind.flatten := by
  obtain ⟨runsBefore, others, rfl, hfront, hothers⟩ |
      ⟨runsBefore, left, c, right, runsBehind, rfl, hfront, hback⟩ :=
    List.flatten_eq_append_iff.1 (h.row.trans hrow)
  · -- the row is cut right in front of the chunk, and no run is empty
    obtain ⟨empties, right, runsBehind, rfl, hempty, hback⟩ := List.flatten_eq_cons_iff.1 hothers.symm
    have hnone : empties = [] := by
      apply List.eq_nil_iff_forall_not_mem.2
      intro run hrun
      exact h.nonempty run (by simp [hrun]) (hempty run hrun)
    exact ⟨runsBefore, [], right, runsBehind, by simp [hnone], by simp [hfront], hback⟩
  · cases hback
    exact ⟨runsBefore, left, right, runsBehind, rfl, hfront, rfl⟩

theorem le_tokenSum_flatten {run : List (List α)} (hnonneg : ∀ c ∈ run, 0 ≤ tokenSum tokens c)
    {chunk : List α} (hchunk : chunk ∈ run) : tokenSum tokens chunk ≤ tokenSum tokens run.flatten := by
  have hflatten : ∀ cs : List (List α), (∀ c ∈ cs, 0 ≤ tokenSum tokens c) →
      0 ≤ tokenSum tokens cs.flatten := by
    intro cs hcs
    induction cs with
    | nil => exact Int.le_refl 0
    | cons c cs ih =>
      rw [List.flatten_cons, tokenSum_append]
      exact Int.add_nonneg (hcs c (by simp)) (ih fun d hd => hcs d (by simp [hd]))
  obtain ⟨left, right, rfl⟩ := List.append_of_mem hchunk
  have hleft := hflatten left fun c hc => hnonneg c (by simp [hc])
  have hright := hflatten right fun c hc => hnonneg c (by simp [hc])
  rw [List.flatten_append, List.flatten_cons, tokenSum_append, tokenSum_append]
  omega

/-- Of a row that was stranded before joining one chunk is left: a neighbour of the row in a run would
make the run too large. -/
theorem StrandedRow.mem_runs {chunks : List (List α)} {runs : List (List (List α))}
    (hstranded : StrandedRow tokens limits chunks) (h : CutInto tokens limits chunks runs)
    (hnonneg : ∀ c ∈ chunks, 0 ≤ tokenSum tokens c) : [] ∈ runs.map List.flatten := by
  obtain ⟨front, n, back, hrow, hshut⟩ := hstranded
  obtain ⟨runsBefore, left, right, runsBehind, rfl, rfl, hright⟩ := exists_run h hrow
  have halone : ∀ c ∈ left ++ [] :: right, limits.hardLimit < tokenSum tokens c →
      (left ++ [] :: right).length = 1 := by
    intro c hc hlarge
    have hle : tokenSum tokens c ≤ tokenSum tokens (left ++ [] :: right).flatten := by
      refine le_tokenSum_flatten (fun d hd => hnonneg d ?_) hc
      rw [← h.row]
      exact List.mem_flatten.2 ⟨_, by simp, hd⟩
    rw [h.single_of_large (by simp) (Int.lt_of_lt_of_le hlarge hle)]
    rfl
  have hleft : left = [] := by
    obtain hleft | ⟨shorter, last, rfl⟩ := left.eq_nil_or_concat
    · exact hleft
    · have hlength := halone last (by simp) (hshut.before last (by simp))
      simp at hlength
      omega
  -- the run ends within the row of empty chunks, or right behind it
  have hempty : ∀ c ∈ right, c = [] := by
    intro c hc
    obtain ⟨more, hrun, hback⟩ | ⟨more, hrow, -⟩ := List.append_eq_append_iff.1 hright
    · cases more with
      | nil =>
        rw [hrun, List.append_nil] at hc
        exact List.eq_of_mem_replicate hc
      | cons next others =>
        have hlength := halone next (by simp [hrun]) (hshut.behind next (by simp [hback]))
        simp [hrun] at hlength
        omega
    · exact List.eq_of_mem_replicate (hrow ▸ List.mem_append_left more hc)
  refine List.mem_map.2 ⟨left ++ [] :: right, by simp, ?_⟩
  rw [hleft, List.nil_append, List.flatten_cons, List.nil_append, List.flatten_eq_nil_iff]
  exact hempty

theorem StrandedRow.nil_mem {chunks : List (List α)} (h : StrandedRow tokens limits chunks)
    (hnonneg : ∀ c ∈ chunks, 0 ≤ tokenSum tokens c) : [] ∈ mergeRounds tokens limits chunks := by
  obtain ⟨runs, hruns, hmerged⟩ := runs_of_joins (mergeRounds_joins tokens limits chunks)
  rw [hmerged]
  exact h.mem_runs hruns hnonneg

/-- Which empty chunks are left, if these are all shut in at last. -/
theorem nil_mem_iff_strandedRow {chunks : List (List α)}
    (hshut : AllShut tokens limits (mergeRounds tokens limits chunks) [])
    (hnonneg : ∀ c ∈ chunks, 0 ≤ tokenSum tokens c) :
    [] ∈ mergeRounds tokens limits chunks ↔ StrandedRow tokens limits chunks := by
  refine ⟨fun hnil => ?_, fun hstranded => hstranded.nil_mem hnonneg⟩
  obtain ⟨runs, hruns, hmerged⟩ := runs_of_joins (mergeRounds_joins tokens limits chunks)
  obtain ⟨front, back, hrow⟩ := List.append_of_mem hnil
  have hplace := hshut front back hrow
  rw [List.append_nil] at hplace
  exact hruns.strandedRow ⟨front, back, hmerged ▸ hrow, hplace⟩

/-- **Which empty chunks are left.** -/
theorem nil_mem_mergeRounds (hmin : 0 < limits.minSize) {chunks : List (List α)}
    (hspaced : Spaced chunks) (hnonneg : ∀ c ∈ chunks, 0 ≤ tokenSum tokens c) :
    [] ∈ mergeRounds tokens limits chunks ↔ Stranded tokens limits chunks := by
  rw [nil_mem_iff_strandedRow (mergeRounds_shut hmin hspaced hnonneg) hnonneg,
    hspaced.strandedRow_iff]

/-! ## §4. No chunk is too small. -/

theorem mergeFrom_keeps (hmin : limits.minSize ≤ 0) {total : Nat} (hfew : total ≤ limits.maxChunks)
    (rest : List (List α)) (before : Option (List α)) (chunk : List α) (r : Round α)
    (hnonneg : ∀ c ∈ chunk :: rest, 0 ≤ tokenSum tokens c) :
    mergeFrom tokens limits total rest before chunk r
      = { r with merged := r.merged ++ chunk :: rest } := by
  have hlarge : ∀ c, 0 ≤ tokenSum tokens c →
      (decide (tokenSum tokens c < limits.minSize) || decide (limits.maxChunks < total)) = false := by
    intro c hc
    rw [Bool.or_eq_false_iff, decide_eq_false_iff_not, decide_eq_false_iff_not]
    exact ⟨by omega, by omega⟩
  induction rest generalizing before chunk r with
  | nil => simp [mergeFrom, hlarge chunk (hnonneg chunk (by simp)), Round.keep]
  | cons next rest ih =>
    rw [mergeFrom, hlarge chunk (hnonneg chunk (by simp)), if_neg (by simp),
      ih (some chunk) next (r.keep chunk) fun c hc => hnonneg c (List.mem_cons_of_mem _ hc)]
    simp [Round.keep]

/-- With a least size of zero or less, nothing is joined unless there are too many chunks. -/
theorem mergeRounds_of_few (hmin : limits.minSize ≤ 0) {chunks : List (List α)}
    (hfew : chunks.length ≤ limits.maxChunks) (hnonneg : ∀ c ∈ chunks, 0 ≤ tokenSum tokens c) :
    mergeRounds tokens limits chunks = chunks := by
  have hround : mergeRound tokens limits chunks = { merged := chunks, joined := false } := by
    cases chunks with
    | nil => rfl
    | cons chunk rest => exact mergeFrom_keeps hmin hfew rest none chunk {} hnonneg
  rw [mergeRounds_last (by simp [GoesOn, hround]), afterRound, hround]

/-- While there are too many chunks, each round leaves an empty chunk only between chunks that are too
large; and after that nothing changes. -/
theorem mergeRounds_shut_of_many (hmin : limits.minSize ≤ 0) {chunks : List (List α)}
    (hmany : limits.maxChunks < chunks.length) (hspaced : Spaced chunks)
    (hnonneg : ∀ c ∈ chunks, 0 ≤ tokenSum tokens c) :
    AllShut tokens limits (mergeRounds tokens limits chunks) [] := by
  induction hlength : chunks.length using Nat.strong_induction_on generalizing chunks with
  | _ n ih =>
    have hround := afterRound_shut (Or.inr hmany) hspaced hnonneg
    by_cases hgoes : GoesOn tokens limits chunks
    · have hjoins := afterRound_joins tokens limits chunks
      rw [mergeRounds_again hgoes]
      by_cases hstill : limits.maxChunks < (afterRound tokens limits chunks).length
      · have hfewer := joins_length hgoes.joins
        exact ih _ (by omega) hstill (spaced_joins hspaced hjoins) (joins_nonneg hjoins hnonneg) rfl
      · rw [mergeRounds_of_few hmin (by omega) (joins_nonneg hjoins hnonneg)]
        exact hround
    · rw [mergeRounds_last hgoes]
      exact hround

/-- Where no two neighbours fit together, an empty chunk stands between chunks that are too large. -/
theorem allShut_of_apart {chunks : List (List α)} (h : chunks.IsChain (Apart tokens limits)) :
    AllShut tokens limits chunks [] := by
  rintro front back rfl
  obtain ⟨-, hback, hfront⟩ := List.isChain_append.1 h
  refine ⟨fun last hlast => ?_, fun next hnext => ?_⟩
  · simpa [Apart, tokenSum_nil] using hfront last hlast [] rfl
  · rw [List.append_nil] at hnext
    simpa [Apart, tokenSum_nil] using (List.isChain_cons.1 hback).1 next hnext

/-- **Which empty chunks are left of too many chunks.** -/
theorem nil_mem_mergeRounds_of_many (hmin : limits.minSize ≤ 0) {chunks : List (List α)}
    (hmany : limits.maxChunks < chunks.length)
    (hcase : Spaced chunks ∨ limits.maxChunks < (mergeRounds tokens limits chunks).length)
    (hnonneg : ∀ c ∈ chunks, 0 ≤ tokenSum tokens c) :
    [] ∈ mergeRounds tokens limits chunks ↔ StrandedRow tokens limits chunks := by
  refine nil_mem_iff_strandedRow ?_ hnonneg
  obtain hspaced | hleft := hcase
  · exact mergeRounds_shut_of_many hmin hmany hspaced hnonneg
  · obtain ⟨earlier, -, hstop, hlast⟩ := mergeRounds_ends tokens limits chunks
    rw [hlast] at hleft ⊢
    obtain hfew | hapart := afterRound_settled hstop
    · omega
    · exact allShut_of_apart hapart

end CodeAtlas.Chunk

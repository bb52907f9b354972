import CodeAtlas.Digraph

/-!
# Adding to graphs

Which nodes and edges a graph has after one more was added: the old ones and the new one, and
nothing else.  The same for the keys of an association list, on which graphs are built.

Main results:
  * `Assoc.mem_keys_put`, `Assoc.mem_insertNew`: keys and members after an addition;
  * `Assoc.get?_put`: what a key stands for after an addition;
  * `Digraph.joins_addEdge`, `Digraph.mem_nodes_addEdge`: edges and nodes after an addition.
-/

namespace CodeAtlas

/-! ## §1. Association lists. -/

namespace Assoc

variable {κ α : Type} [BEq κ]

/-- The keys after a value was set.  It is enough that keys which count as the same are the same. -/
theorem mem_keys_put {key : κ} {value : α} {entries : List (κ × α)}
    (hsame : ∀ e ∈ entries, (e.1 == key) = true → e.1 = key) {k : κ} :
    k ∈ (put key value entries).map (·.1) ↔ k = key ∨ k ∈ entries.map (·.1) := by
  induction entries with
  | nil => simp [put]
  | cons e rest ih =>
    obtain ⟨k', v⟩ := e
    have hrest := ih fun e he => hsame e (List.mem_cons_of_mem _ he)
    rw [put]
    by_cases heq : (k' == key) = true
    · -- the key is there, and keeps its place
      have hkey : k' = key := hsame (k', v) List.mem_cons_self heq
      rw [if_pos heq]
      simp [hkey]
    · rw [if_neg heq, List.map_cons, List.mem_cons, hrest, List.map_cons, List.mem_cons]
      exact or_left_comm

/-- An entry after a value was set is an old one or the new one. -/
theorem mem_put {key : κ} {value : α} {entries : List (κ × α)}
    (hsame : ∀ e ∈ entries, (e.1 == key) = true → e.1 = key) {e : κ × α}
    (h : e ∈ put key value entries) : e ∈ entries ∨ e = (key, value) := by
  induction entries with
  | nil => exact Or.inr (List.mem_singleton.1 h)
  | cons first rest ih =>
    obtain ⟨k, v⟩ := first
    rw [put] at h
    by_cases heq : (k == key) = true
    · have hkey : k = key := hsame (k, v) List.mem_cons_self heq
      rw [if_pos heq, hkey] at h
      obtain h | h := List.mem_cons.1 h
      · exact Or.inr h
      · exact Or.inl (List.mem_cons_of_mem _ h)
    · rw [if_neg heq] at h
      obtain h | h := List.mem_cons.1 h
      · exact Or.inl (h ▸ List.mem_cons_self)
      · obtain h | h := ih (fun e he => hsame e (List.mem_cons_of_mem _ he)) h
        · exact Or.inl (List.mem_cons_of_mem _ h)
        · exact Or.inr h

theorem mem_insertNew {β : Type} [BEq β] {member : β} {members : List β}
    (hsame : ∀ m ∈ members, (member == m) = true → member = m) {m : β} :
    m ∈ insertNew member members ↔ m ∈ members ∨ m = member := by
  unfold insertNew
  by_cases hcontains : members.contains member = true
  · rw [if_pos hcontains]
    obtain ⟨m', hm', heq⟩ := List.contains_iff_exists_mem_beq.1 hcontains
    have hmember := hsame m' hm' heq
    constructor
    · exact Or.inl
    · rintro (hm | rfl)
      · exact hm
      · rw [hmember]
        exact hm'
  · rw [if_neg hcontains, List.mem_append, List.mem_singleton]

/-- A new key comes last. -/
theorem put_of_absent {key : κ} {value : α} {entries : List (κ × α)}
    (h : has key entries = false) : put key value entries = entries ++ [(key, value)] := by
  induction entries with
  | nil => rfl
  | cons e rest ih =>
    obtain ⟨k, v⟩ := e
    rw [has, List.any_cons, Bool.or_eq_false_iff] at h
    rw [put, if_neg (Bool.eq_false_iff.1 h.1), ih h.2, List.cons_append]

/-- A key that is there keeps its place, and so do the others. -/
theorem keys_put_of_present {key : κ} {value : α} {entries : List (κ × α)}
    (h : has key entries = true) : (put key value entries).map (·.1) = entries.map (·.1) := by
  induction entries with
  | nil => cases h
  | cons e rest ih =>
    obtain ⟨k, v⟩ := e
    rw [put]
    by_cases heq : (k == key) = true
    · rw [if_pos heq]
      rfl
    · rw [has, List.any_cons, Bool.or_eq_true, or_iff_right heq] at h
      rw [if_neg heq, List.map_cons, List.map_cons, ih h]

/-- Keys that differ still do after a value was set. -/
theorem nodup_keys_put [LawfulBEq κ] (key : κ) (value : α) {entries : List (κ × α)}
    (h : (entries.map (·.1)).Nodup) : ((put key value entries).map (·.1)).Nodup := by
  cases hthere : has key entries with
  | true =>
    rw [keys_put_of_present hthere]
    exact h
  | false =>
    rw [put_of_absent hthere, List.map_append, List.nodup_append]
    refine ⟨h, List.pairwise_singleton _ _, ?_⟩
    intro a ha b hb heq
    obtain ⟨e, he, rfl⟩ := List.mem_map.1 ha
    rw [has, List.any_eq_false] at hthere
    exact hthere e he (beq_iff_eq.2 (heq.trans (List.mem_singleton.1 hb)))

/-- What is found is there, under a key that counts as the same. -/
theorem mem_of_get? {key : κ} {value : α} {entries : List (κ × α)}
    (h : get? key entries = some value) : ∃ k, (k == key) = true ∧ (k, value) ∈ entries := by
  induction entries with
  | nil => cases h
  | cons e rest ih =>
    obtain ⟨k, v⟩ := e
    rw [get?] at h
    by_cases heq : (k == key) = true
    · rw [if_pos heq, Option.some.injEq] at h
      exact ⟨k, heq, h ▸ List.mem_cons_self⟩
    · rw [if_neg heq] at h
      obtain ⟨k', hk', hmem⟩ := ih h
      exact ⟨k', hk', List.mem_cons_of_mem _ hmem⟩

/-- A key that is there once is found with its value. -/
theorem get?_of_mem {key : κ} {value : α} {entries : List (κ × α)}
    (hrefl : (key == key) = true) (hsame : ∀ e ∈ entries, (e.1 == key) = true → e.1 = key)
    (honce : (entries.map (·.1)).Nodup) (h : (key, value) ∈ entries) :
    get? key entries = some value := by
  induction entries with
  | nil => cases h
  | cons e rest ih =>
    obtain ⟨k, v⟩ := e
    rw [List.map_cons, List.nodup_cons] at honce
    rw [get?]
    by_cases heq : (k == key) = true
    · have hkey : k = key := hsame (k, v) List.mem_cons_self heq
      obtain h | h := List.mem_cons.1 h
      · rw [if_pos heq, (Prod.mk.inj h).2]
      · exact absurd (List.mem_map_of_mem h) (hkey ▸ honce.1)
    · rw [if_neg heq]
      obtain h | h := List.mem_cons.1 h
      · rw [← (Prod.mk.inj h).1] at heq
        exact absurd hrefl heq
      · exact ih (fun e he => hsame e (List.mem_cons_of_mem _ he)) honce.2 h

theorem get?_eq_some [LawfulBEq κ] {key : κ} {value : α} {entries : List (κ × α)}
    (honce : (entries.map (·.1)).Nodup) :
    get? key entries = some value ↔ (key, value) ∈ entries := by
  constructor
  · intro h
    obtain ⟨k, hk, hmem⟩ := mem_of_get? h
    rwa [eq_of_beq hk] at hmem
  · exact get?_of_mem BEq.rfl (fun _ _ h => eq_of_beq h) honce

/-- The value of a key after a value was set. -/
theorem get?_put [LawfulBEq κ] (key : κ) (value : α) (entries : List (κ × α)) (k : κ) :
    get? k (put key value entries) = if key == k then some value else get? k entries := by
  induction entries with
  | nil => rfl
  | cons e rest ih =>
    obtain ⟨k', v⟩ := e
    rw [put]
    by_cases hkey : (k' == key) = true
    · rw [if_pos hkey, get?, get?, eq_of_beq hkey]
      split <;> rfl
    · rw [if_neg hkey, get?, get?, ih]
      by_cases hk : (k' == k) = true
      · rw [if_pos hk, if_pos hk, if_neg]
        intro heq
        rw [eq_of_beq hk, eq_of_beq heq] at hkey
        exact hkey BEq.rfl
      · rw [if_neg hk, if_neg hk]

theorem has_eq_false [LawfulBEq κ] {key : κ} {entries : List (κ × α)}
    (h : key ∉ entries.map (·.1)) : has key entries = false := by
  unfold has
  rw [List.any_eq_false]
  intro e he heq
  exact h (eq_of_beq heq ▸ List.mem_map_of_mem he)

end Assoc

/-! ## §2. Directed graphs. -/

namespace Digraph

variable {κ ε : Type}

/-- Is there an edge from one node to another? -/
def Joins (g : Digraph κ ε) (u v : κ) : Prop :=
  (u, v) ∈ g.edges.map (·.1)

variable [BEq κ] [LawfulBEq κ] (g : Digraph κ ε)

theorem mem_nodes_addNode {n m : κ} : m ∈ (g.addNode n).nodes ↔ m ∈ g.nodes ∨ m = n :=
  Assoc.mem_insertNew fun _ _ h => eq_of_beq h

theorem mem_nodes_addEdge {u v n : κ} {label : ε} :
    n ∈ (g.addEdge u v label).nodes ↔ n ∈ g.nodes ∨ n = u ∨ n = v := by
  show n ∈ ((g.addNode u).addNode v).nodes ↔ _
  rw [mem_nodes_addNode, mem_nodes_addNode, or_assoc]

theorem joins_addEdge {u v x y : κ} {label : ε} :
    (g.addEdge u v label).Joins x y ↔ g.Joins x y ∨ (x = u ∧ y = v) := by
  show (x, y) ∈ (Assoc.put (u, v) label g.edges).map (·.1) ↔ _
  rw [Assoc.mem_keys_put fun _ _ h => eq_of_beq h, or_comm, Prod.mk.injEq]
  exact Iff.rfl

/-- The edges that are listed are those from nodes of the graph. -/
theorem mem_edgeList {e : (κ × κ) × ε} : e ∈ g.edgeList ↔ e ∈ g.edges ∧ e.1.1 ∈ g.nodes := by
  unfold edgeList
  rw [List.mem_flatMap]
  constructor
  · rintro ⟨n, hn, he⟩
    obtain ⟨hmem, heq⟩ := List.mem_filter.1 he
    rw [← eq_of_beq heq] at hn
    exact ⟨hmem, hn⟩
  · rintro ⟨hmem, hnode⟩
    exact ⟨e.1.1, hnode, List.mem_filter.2 ⟨hmem, BEq.rfl⟩⟩

theorem mem_targets {u v : κ} : v ∈ g.targets u ↔ g.Joins u v := by
  unfold targets Joins
  simp only [List.mem_map, List.mem_filter]
  constructor
  · rintro ⟨e, ⟨hmem, heq⟩, rfl⟩
    exact ⟨e, hmem, by rw [← eq_of_beq heq]⟩
  · rintro ⟨e, hmem, heq⟩
    exact ⟨e, ⟨hmem, by rw [heq]; exact BEq.rfl⟩, by rw [heq]⟩

end Digraph

end CodeAtlas

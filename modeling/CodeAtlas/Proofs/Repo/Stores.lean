import CodeAtlas.Proofs.Graphs
import CodeAtlas.Proofs.Repo.Keys
import CodeAtlas.Repo.FileStore

/-!
# Trees of a store

Files are written below the base of a store, name by name.  No place is ever taken twice, and the
tree that is seen from any directory of the store is one in which files are known by their paths.

Main results:
  * `FileStore.proper_of_writes`: writing keeps the places of a store in order;
  * `FileStore.Proper.tree`: every tree of such a store is proper.
-/

namespace CodeAtlas.FileStore

/-- A name of a file or directory. -/
def IsName (n : String) : Prop :=
  n ≠ "" ∧ n ≠ "." ∧ n ≠ ".." ∧ '/' ∉ n.toList

/-- No place is taken twice, and all of them lie at or below the base. -/
structure Proper (s : FileStore) : Prop where
  distinct : (s.entries.map (·.1)).Nodup
  below : ∀ e ∈ s.entries, ∃ names, e.1 = s.base ++ names ∧ ∀ n ∈ names, IsName n

theorem proper_empty (base : List String) : (empty base).Proper where
  distinct := by simp [empty]
  below := by
    intro e he
    have he : e = (base, none) := by simpa [empty] using he
    exact ⟨[], by simp [he, empty], by simp⟩

/-! ## §1. Writing. -/

/-- A place below the base is taken, once. -/
theorem Proper.put {s : FileStore} (h : s.Proper) {names : List String}
    (hnames : ∀ n ∈ names, IsName n) (bytes : Option ByteArray) :
    ({ s with entries := Assoc.put (s.base ++ names) bytes s.entries } : FileStore).Proper := by
  refine ⟨Assoc.nodup_keys_put _ _ h.distinct, ?_⟩
  intro e he
  obtain hold | rfl := Assoc.mem_put (fun _ _ heq => eq_of_beq heq) he
  · exact h.below e hold
  · exact ⟨names, rfl, hnames⟩

theorem makeDirectory_eq (s : FileStore) (place : List String) :
    s.makeDirectory place =
      if Assoc.has place s.entries then s
      else { s with entries := Assoc.put place none s.entries } := by
  unfold makeDirectory
  by_cases hthere : Assoc.has place s.entries = true
  · rw [if_pos hthere, if_pos hthere]
  · rw [if_neg hthere, if_neg hthere, Assoc.put_of_absent (Bool.eq_false_iff.2 hthere)]

/-- The directories on the way are made, and the way ends below where it began. -/
theorem Proper.enter {s : FileStore} (h : s.Proper) (front names : List String)
    (hfront : ∀ n ∈ front, IsName n) (hnames : ∀ n ∈ names, IsName n) :
    (s.enter (s.base ++ front) names).1.Proper ∧
      (s.enter (s.base ++ front) names).1.base = s.base ∧
      (s.enter (s.base ++ front) names).2 = s.base ++ (front ++ names) := by
  induction names generalizing s front with
  | nil => exact ⟨h, rfl, by rw [FileStore.enter, List.append_nil]⟩
  | cons name rest ih =>
    have hname := hnames name List.mem_cons_self
    have hlonger : ∀ n ∈ front ++ [name], IsName n := by
      intro n hn
      obtain hn | hn := List.mem_append.1 hn
      · exact hfront n hn
      · exact List.mem_singleton.1 hn ▸ hname
    have hmade : (s.makeDirectory (s.base ++ (front ++ [name]))).Proper ∧
        (s.makeDirectory (s.base ++ (front ++ [name]))).base = s.base := by
      rw [makeDirectory_eq]
      split
      · exact ⟨h, rfl⟩
      · exact ⟨h.put hlonger none, rfl⟩
    have hrest := ih hmade.1 (front ++ [name]) hlonger fun n hn => hnames n (List.mem_cons_of_mem _ hn)
    rw [hmade.2] at hrest
    rw [FileStore.enter, if_neg hname.2.2.1, List.append_assoc]
    simpa using hrest

/-- **Writing** a file or a directory keeps the places in order. -/
theorem Proper.write {s : FileStore} (h : s.Proper) {names : List String}
    (hnames : ∀ n ∈ names, IsName n) (bytes : Option ByteArray) : (s.write names bytes).Proper := by
  -- the way begins at the base itself
  have henter : ∀ names : List String, (∀ n ∈ names, IsName n) →
      (s.enter s.base names).1.Proper ∧ (s.enter s.base names).1.base = s.base ∧
        (s.enter s.base names).2 = s.base ++ names := by
    intro names hnames
    have hall := h.enter [] names (by simp) hnames
    rwa [List.append_nil, List.nil_append] at hall
  cases bytes with
  | none => exact (henter names hnames).1
  | some bytes =>
    obtain ⟨hproper, hbase, hplace⟩ := henter names.dropLast fun n hn =>
      hnames n (List.dropLast_subset _ hn)
    have hwhole : s.base ++ names.dropLast ++ names.getLast?.toList = s.base ++ names := by
      rw [List.append_assoc]
      congr 1
      cases hlast : names.getLast? with
      | none => rw [List.getLast?_eq_none_iff.1 hlast]; rfl
      | some last => exact List.dropLast_append_getLast? last hlast
    have hput := hproper.put hnames (some bytes)
    have hsame : (s.enter s.base names.dropLast).1.base ++ names =
        (s.enter s.base names.dropLast).2 ++ names.getLast?.toList := by
      rw [hbase, hplace, hwhole]
    rw [hsame] at hput
    exact hput

/-- A store that files and directories were written to, one after the other. -/
theorem proper_of_writes (base : List String) (files : List (List String × Option ByteArray))
    (hfiles : ∀ f ∈ files, ∀ n ∈ f.1, IsName n) :
    (files.foldl (fun s f => s.write f.1 f.2) (empty base)).Proper := by
  suffices hrun : ∀ s : FileStore, s.Proper →
      (files.foldl (fun s f => s.write f.1 f.2) s).Proper from hrun _ (proper_empty base)
  induction files with
  | nil => exact fun s h => h
  | cons f rest ih =>
    intro s h
    rw [List.foldl_cons]
    exact ih (fun g hg => hfiles g (List.mem_cons_of_mem _ hg)) _
      (h.write (hfiles f List.mem_cons_self) f.2)

/-! ## §2. Trees. -/

/-- Names lead to where they are. -/
theorem follow?_eq {s : FileStore} {place names found : List String}
    (hnames : ∀ n ∈ names, IsName n) (h : s.follow? place names = some found) :
    found = place ++ names := by
  induction names generalizing place with
  | nil =>
    rw [follow?, Option.some.injEq] at h
    rw [← h, List.append_nil]
  | cons name rest ih =>
    have hname := hnames name List.mem_cons_self
    rw [follow?, if_neg hname.2.2.1] at h
    split at h
    · cases h
    · split at h
      · rw [ih (fun n hn => hnames n (List.mem_cons_of_mem _ hn)) h, List.append_assoc]
        rfl
      · cases h

theorem fromBase_append (s : FileStore) (names : List String) :
    s.fromBase (s.base ++ names) = names := by
  rw [fromBase, if_pos (by simp), List.drop_left]

/-- Sorting keeps the entries of a tree. -/
theorem perm_ofEntries (above asked : List String) (entries : List FileEntry) :
    (FileTree.ofEntries above asked entries).entries.Perm entries :=
  List.mergeSort_perm _ _

/-- **Trees.**  Below any directory of a store, files are known by their paths. -/
theorem Proper.tree {s : FileStore} (h : s.Proper) {above : List String} {p : FilePath}
    (hnames : ∀ n ∈ p.names, IsName n) {t : FileTree} (ht : s.tree? above p = some t) :
    t.Proper := by
  unfold tree? at ht
  split at ht
  · cases ht
  · obtain ⟨place, hfollow, rfl⟩ := Option.map_eq_some_iff.1 ht
    have hplace := follow?_eq hnames hfollow
    refine ⟨?_, ?_⟩
    · refine (((perm_ofEntries _ _ _).map _).nodup_iff).2 ?_
      rw [List.map_map]
      have hplaces : ((s.entries.filter fun e =>
          place.isPrefixOf e.1 && place.length < e.1.length).map (·.1)).Nodup :=
        h.distinct.sublist (List.filter_sublist.map _)
      have honce := List.Nodup.map_on (f := s.fromBase) ?_ hplaces
      · rwa [List.map_map] at honce
      · intro a ha b hb heq
        obtain ⟨e, he, rfl⟩ := List.mem_map.1 ha
        obtain ⟨e', he', rfl⟩ := List.mem_map.1 hb
        obtain ⟨names, hname, -⟩ := h.below e (List.mem_filter.1 he).1
        obtain ⟨names', hname', -⟩ := h.below e' (List.mem_filter.1 he').1
        rw [hname, hname', fromBase_append, fromBase_append] at heq
        rw [hname, hname', heq]
    · intro e he
      obtain ⟨⟨inner, bytes⟩, hinner, rfl⟩ := List.mem_map.1 ((perm_ofEntries _ _ _).mem_iff.1 he)
      obtain ⟨hmem, hlonger⟩ := List.mem_filter.1 hinner
      obtain ⟨names, hname, hgood⟩ := h.below _ hmem
      dsimp only at hname hlonger
      show FilePath.Proper { names := s.fromBase inner }
      rw [hname, fromBase_append]
      refine ⟨rfl, ?_, fun n hn => ⟨(hgood n hn).1, (hgood n hn).2.1, (hgood n hn).2.2.2⟩⟩
      rintro rfl
      -- an entry of the tree has more names than the directory
      rw [Bool.and_eq_true, decide_eq_true_eq] at hlonger
      have hlength := hlonger.2
      rw [hname, hplace, List.append_nil, List.length_append] at hlength
      omega

end CodeAtlas.FileStore

import CodeAtlas.Failure

/-!
# Outcomes in a row

What is known when several operations that can fail have succeeded one after the other: each of
them has, on what the ones before it left.

Main results:
  * `Outcome.mem_of_mapM`: the answers of an operation on each member of a list;
  * `Outcome.foldlM_rule`: what each step keeps holds at the end;
  * `Outcome.foldlM_adds`: steps in a row add what each of them adds;
  * `Outcome.Avoids.bind`, `Outcome.Avoids.foldlM`: what none of several operations fails with, the
    row of them does not fail with; in particular (`Outcome.Ends.bind`, `Outcome.Ends.mapM`) it ends if
    each of them does;
  * `Outcome.mapM_eq_error`: a row of operations with one way to fail.
-/

namespace CodeAtlas.Outcome

variable {α β σ : Type}

theorem bind_ok {x : Outcome α} {f : α → Outcome β} {b : β} :
    (x >>= f) = .ok b ↔ ∃ a, x = .ok a ∧ f a = .ok b := by
  cases x with
  | error e => simp [bind, Except.bind]
  | ok a => simp [bind, Except.bind]

theorem pure_ok {a b : α} : (pure a : Outcome α) = .ok b ↔ a = b := by
  simp [pure, Except.pure]

/-- The answers of an operation on each member of a list are those of the members. -/
theorem mem_of_mapM {f : α → Outcome β} {xs : List α} {ys : List β} (h : xs.mapM f = .ok ys)
    {y : β} : y ∈ ys ↔ ∃ x ∈ xs, f x = .ok y := by
  induction xs generalizing ys with
  | nil =>
    rw [List.mapM_nil, pure_ok] at h
    simp [← h]
  | cons x xs ih =>
    rw [List.mapM_cons, bind_ok] at h
    obtain ⟨first, hfirst, hrest⟩ := h
    rw [bind_ok] at hrest
    obtain ⟨rest, hrest, hys⟩ := hrest
    rw [← pure_ok.1 hys, List.mem_cons, ih hrest]
    constructor
    · rintro (rfl | ⟨x', hx', hy'⟩)
      · exact ⟨x, List.mem_cons_self, hfirst⟩
      · exact ⟨x', List.mem_cons_of_mem _ hx', hy'⟩
    · rintro ⟨x', hx', hy'⟩
      obtain rfl | hx' := List.mem_cons.1 hx'
      · exact Or.inl (Except.ok.inj (hy'.symm.trans hfirst))
      · exact Or.inr ⟨x', hx', hy'⟩

/-- An operation that succeeds on all members of a list succeeds on each of them. -/
theorem ok_of_mapM {f : α → Outcome β} {xs : List α} {ys : List β} (h : xs.mapM f = .ok ys)
    {x : α} (hx : x ∈ xs) : ∃ y ∈ ys, f x = .ok y := by
  induction xs generalizing ys with
  | nil => cases hx
  | cons a xs ih =>
    rw [List.mapM_cons, bind_ok] at h
    obtain ⟨first, hfirst, hrest⟩ := h
    rw [bind_ok] at hrest
    obtain ⟨rest, hrest, hys⟩ := hrest
    rw [← pure_ok.1 hys]
    obtain rfl | hx := List.mem_cons.1 hx
    · exact ⟨first, List.mem_cons_self, hfirst⟩
    · obtain ⟨y, hy, hxy⟩ := ih hrest hx
      exact ⟨y, List.mem_cons_of_mem _ hy, hxy⟩

/-- What an answer tells about the member it belongs to is told by the answers in the same row. -/
theorem map_of_mapM {γ : Type} {f : α → Outcome β} {ofMember : α → γ} {ofAnswer : β → γ}
    (hf : ∀ x y, f x = .ok y → ofAnswer y = ofMember x) {xs : List α} {ys : List β}
    (h : xs.mapM f = .ok ys) : ys.map ofAnswer = xs.map ofMember := by
  induction xs generalizing ys with
  | nil =>
    rw [List.mapM_nil, pure_ok] at h
    rw [← h]
    rfl
  | cons x xs ih =>
    rw [List.mapM_cons, bind_ok] at h
    obtain ⟨first, hfirst, hrest⟩ := h
    rw [bind_ok] at hrest
    obtain ⟨rest, hrest, hys⟩ := hrest
    rw [← pure_ok.1 hys, List.map_cons, List.map_cons, hf x first hfirst, ih hrest]

/-- An operation that answers for each member answers for the list. -/
theorem mapM_eq_ok {f : α → Outcome β} {answer : α → β} {xs : List α}
    (h : ∀ x ∈ xs, f x = .ok (answer x)) : xs.mapM f = .ok (xs.map answer) := by
  induction xs with
  | nil => rfl
  | cons x xs ih =>
    rw [List.mapM_cons, h x List.mem_cons_self, ih fun y hy => h y (List.mem_cons_of_mem _ hy)]
    rfl

/-- An operation that gives back each member gives back the list. -/
theorem mapM_eq_self {f : α → Outcome α} {xs : List α} (h : ∀ x ∈ xs, f x = .ok x) :
    xs.mapM f = .ok xs := by
  rw [mapM_eq_ok h, List.map_id']

/-- A test that answers for each member picks those for which the answer is yes. -/
theorem filterM_eq_ok {p : α → Outcome Bool} {answer : α → Bool} {xs : List α}
    (h : ∀ x ∈ xs, p x = .ok (answer x)) : xs.filterM p = .ok (xs.filter answer) := by
  suffices hrow : ∀ kept, xs.filterAuxM p kept = .ok ((xs.filter answer).reverse ++ kept) by
    unfold List.filterM
    rw [hrow]
    show Except.ok _ = _
    rw [List.append_nil, List.reverse_reverse]
  induction xs with
  | nil => exact fun _ => rfl
  | cons x xs ih =>
    intro kept
    rw [List.filterAuxM, h x List.mem_cons_self]
    show xs.filterAuxM p (bif answer x then x :: kept else kept) = _
    rw [ih fun y hy => h y (List.mem_cons_of_mem _ hy), List.filter_cons]
    cases answer x with
    | false => rfl
    | true => simp

/-- What holds of the members done so far and is kept by each step holds of all at the end. -/
theorem foldlM_rule {step : σ → α → Outcome σ} (inv : List α → σ → Prop)
    (hstep : ∀ done a s s', inv done s → step s a = .ok s' → inv (done ++ [a]) s')
    {xs : List α} {s s' : σ} (hstart : inv [] s) (h : xs.foldlM step s = .ok s') : inv xs s' := by
  suffices hrow : ∀ (rest done : List α) (s : σ), inv done s → rest.foldlM step s = .ok s' →
      inv (done ++ rest) s' from hrow xs [] s hstart h
  intro rest
  induction rest with
  | nil =>
    intro done s hdone hrest
    rw [List.foldlM_nil, pure_ok] at hrest
    rw [List.append_nil, ← hrest]
    exact hdone
  | cons a rest ih =>
    intro done s hdone hrest
    rw [List.foldlM_cons, bind_ok] at hrest
    obtain ⟨next, hnext, hrest⟩ := hrest
    have hall := ih (done ++ [a]) next (hstep done a s next hdone hnext) hrest
    rw [List.append_assoc] at hall
    exact hall

/-- Steps in a row add what each of them adds.  `adds new s t` says that `t` is `s` with the pairs
of `new` added to it; a step may be told that what it begins with has come from `s` in this way. -/
theorem foldlM_adds {κ : Type} {step : σ → α → Outcome σ} {adds : (κ → κ → Prop) → σ → σ → Prop}
    (hnone : ∀ s, adds (fun _ _ => False) s s)
    (hboth : ∀ new more s t u, adds new s t → adds more t u →
      adds (fun x y => new x y ∨ more x y) s u)
    {s s' : σ} (new : α → κ → κ → Prop)
    (hstep : ∀ a t t' sofar, adds sofar s t → step t a = .ok t' → adds (new a) t t')
    {xs : List α} (h : xs.foldlM step s = .ok s') :
    adds (fun x y => ∃ a ∈ xs, new a x y) s s' := by
  refine foldlM_rule (fun done t => adds (fun x y => ∃ a ∈ done, new a x y) s t) ?_ ?_ h
  · intro done a t t' hdone ht'
    have hall := hboth _ _ s t t' hdone (hstep a t t' _ hdone ht')
    have hsame : (fun x y => (∃ b ∈ done, new b x y) ∨ new a x y) =
        fun x y => ∃ b ∈ done ++ [a], new b x y := by
      funext x y
      simp [or_and_right, exists_or]
    rwa [hsame] at hall
  · have hsame : (fun _ _ => False) = fun (x y : κ) => ∃ a ∈ ([] : List α), new a x y := by
      funext x y
      simp
    rw [← hsame]
    exact hnone s

/-- What is added may be said in other words. -/
theorem adds_congr {κ : Type} {adds : (κ → κ → Prop) → σ → σ → Prop} {new other : κ → κ → Prop}
    {s t : σ} (h : adds new s t) (hsame : ∀ x y, new x y ↔ other x y) : adds other s t := by
  have : new = other := by
    funext x y
    exact propext (hsame x y)
  exact this ▸ h

/-! ## Operations that do not fail in one way. -/

/-- The operation does not fail in this way. -/
def Avoids (e : Failure) (x : Outcome α) : Prop :=
  x ≠ .error e

theorem Avoids.ok (e : Failure) (a : α) : Avoids e (.ok a) := by
  intro h
  cases h

theorem Avoids.error {e other : Failure} (h : other ≠ e) : Avoids e (.error other : Outcome α) := by
  intro heq
  exact h (Except.error.inj heq)

/-- A failure that is handed on is as good as the one it comes from. -/
theorem Avoids.hand_on {e other : Failure} {x : Outcome α} (hx : Avoids e x)
    (h : x = .error other) : Avoids e (.error other : Outcome β) := by
  rw [h] at hx
  exact Avoids.error fun he => hx (by rw [he])

theorem Avoids.bind {e : Failure} {x : Outcome α} {f : α → Outcome β} (hx : Avoids e x)
    (hf : ∀ a, x = .ok a → Avoids e (f a)) : Avoids e (x >>= f) := by
  cases x with
  | error other => exact hx.hand_on rfl
  | ok a => exact hf a rfl

theorem Avoids.mapM {e : Failure} {f : α → Outcome β} (hf : ∀ a, Avoids e (f a)) (xs : List α) :
    Avoids e (xs.mapM f) := by
  induction xs with
  | nil => exact Avoids.ok e []
  | cons x xs ih =>
    rw [List.mapM_cons]
    apply Avoids.bind (hf x)
    intro b _
    apply Avoids.bind ih
    intro bs _
    exact Avoids.ok e (b :: bs)

theorem Avoids.foldlM {e : Failure} {step : σ → α → Outcome σ} (hstep : ∀ s a, Avoids e (step s a))
    (xs : List α) (s : σ) : Avoids e (xs.foldlM step s) := by
  induction xs generalizing s with
  | nil => exact Avoids.ok e s
  | cons x xs ih =>
    rw [List.foldlM_cons]
    exact Avoids.bind (hstep s x) fun next _ => ih next

/-! ## Operations that end. -/

/-- The operation came to an end: it succeeded, or failed for another reason than having none. -/
def Ends (x : Outcome α) : Prop :=
  x ≠ .error .endless

theorem Ends.ok (a : α) : Ends (.ok a) :=
  Avoids.ok .endless a

theorem Ends.error {e : Failure} (he : e ≠ .endless) : Ends (.error e : Outcome α) :=
  Avoids.error he

theorem Ends.hand_on {x : Outcome α} {e : Failure} (hx : Ends x) (h : x = .error e) :
    Ends (.error e : Outcome β) :=
  Avoids.hand_on hx h

theorem Ends.bind {x : Outcome α} {f : α → Outcome β} (hx : Ends x)
    (hf : ∀ a, x = .ok a → Ends (f a)) : Ends (x >>= f) :=
  Avoids.bind hx hf

theorem Ends.mapM {f : α → Outcome β} (hf : ∀ a, Ends (f a)) (xs : List α) : Ends (xs.mapM f) :=
  Avoids.mapM hf xs

/-! ## Operations with one way to fail. -/

/-- The operation fails in no other way. -/
def FailsOnly (e : Failure) (x : Outcome α) : Prop :=
  ∀ other, x = .error other → other = e

theorem FailsOnly.ok (e : Failure) (a : α) : FailsOnly e (.ok a) := by
  intro other h
  cases h

theorem FailsOnly.error (e : Failure) : FailsOnly e (.error e : Outcome α) := by
  intro other h
  exact (Except.error.inj h).symm

theorem FailsOnly.bind {e : Failure} {x : Outcome α} {f : α → Outcome β} (hx : FailsOnly e x)
    (hf : ∀ a, FailsOnly e (f a)) : FailsOnly e (x >>= f) := by
  cases x with
  | error other =>
    intro last h
    exact (Except.error.inj h).symm.trans (hx other rfl)
  | ok a => exact hf a

theorem FailsOnly.mapM {e : Failure} {f : α → Outcome β} {xs : List α}
    (hf : ∀ x ∈ xs, FailsOnly e (f x)) : FailsOnly e (xs.mapM f) := by
  induction xs with
  | nil => exact FailsOnly.ok e []
  | cons x xs ih =>
    rw [List.mapM_cons]
    apply FailsOnly.bind (hf x List.mem_cons_self)
    intro b
    apply FailsOnly.bind (ih fun y hy => hf y (List.mem_cons_of_mem _ hy))
    intro bs
    exact FailsOnly.ok e (b :: bs)

/-- If there is but one way to fail, it does not matter which member is the first to do so. -/
theorem mapM_eq_error {e : Failure} {f : α → Outcome β} {xs : List α}
    (hf : ∀ x ∈ xs, FailsOnly e (f x)) {x : α} (hx : x ∈ xs) (hfail : f x = .error e) :
    xs.mapM f = .error e := by
  cases hall : xs.mapM f with
  | error other => rw [FailsOnly.mapM hf other hall]
  | ok ys =>
    obtain ⟨y, -, hy⟩ := ok_of_mapM hall hx
    rw [hfail] at hy
    cases hy

/-- Picking members by a test fails as putting the test to all of them does. -/
theorem filterM_eq_error_iff {e : Failure} {p : α → Outcome Bool} {xs : List α} :
    xs.filterM p = .error e ↔ xs.mapM p = .error e := by
  have hrow : ∀ kept, xs.filterAuxM p kept = .error e ↔ xs.mapM p = .error e := by
    induction xs with
    | nil =>
      intro kept
      constructor <;> intro h <;> cases h
    | cons x xs ih =>
      intro kept
      rw [List.filterAuxM, List.mapM_cons]
      cases p x with
      | error other => simp [bind, Except.bind]
      | ok b =>
        show xs.filterAuxM p _ = .error e ↔ _
        rw [ih]
        cases xs.mapM p with
        | error other => simp [bind, Except.bind]
        | ok bs => constructor <;> intro h <;> cases h
  rw [← hrow []]
  unfold List.filterM
  cases xs.filterAuxM p [] with
  | error other => rfl
  | ok kept => constructor <;> intro h <;> cases h

end CodeAtlas.Outcome

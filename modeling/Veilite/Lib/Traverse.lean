/-
Traversals: a step over a list of items, in order, up to the first that fails. A step passes a state and
may panic, which is none. Each rule takes what one step does to what a whole traversal does.
-/
import Mathlib.Data.List.Basic
import Mathlib.Order.Basic
import Mathlib.Tactic

namespace Traverse

/-! ## Sequencing -/

section Sequencing

variable {ε ε' α β : Type}

theorem bind_eq_ok_iff {x : Except ε α} {f : α → Except ε β} {b : β} :
    x >>= f = .ok b ↔ ∃ a, x = .ok a ∧ f a = .ok b := by
  cases x with
  | error e => exact ⟨by rintro ⟨⟩, by rintro ⟨a, ⟨⟩, -⟩⟩
  | ok a => exact ⟨fun h => ⟨a, rfl, h⟩, by rintro ⟨a, ⟨⟩, h⟩; exact h⟩

theorem mapError_eq_ok_iff {x : Except ε α} {f : ε → ε'} {a : α} : x.mapError f = .ok a ↔ x = .ok a := by
  cases x with
  | error e => exact ⟨by rintro ⟨⟩, by rintro ⟨⟩⟩
  | ok a => exact ⟨by rintro ⟨⟩; rfl, by rintro ⟨⟩; rfl⟩

/-- A check in front of the rest. -/
theorem guard_eq_ok_iff {c : Prop} [Decidable c] {e : ε} {f : PUnit → Except ε α} {a : α} :
    (if c then throw e >>= f else f ⟨⟩) = .ok a ↔ ¬ c ∧ f ⟨⟩ = .ok a := by
  by_cases hc : c
  · rw [if_pos hc]
    exact ⟨by rintro ⟨⟩, fun h => absurd hc h.1⟩
  · rw [if_neg hc]
    exact ⟨fun h => ⟨hc, h⟩, fun h => h.2⟩

end Sequencing

/-! ## Mapping up to the first error -/

section FirstError

variable {ι ε α : Type} {f : ι → Except ε α}

/-- The first index to stop at is 0, or one further on. -/
theorem exists_first_iff {P Q : Nat → Prop} :
    (∃ i, (∀ m < i, P m) ∧ Q i) ↔ Q 0 ∨ P 0 ∧ ∃ i, (∀ m < i, P (m + 1)) ∧ Q (i + 1) := by
  rw [← Nat.or_exists_add_one]
  simp only [Nat.not_lt_zero, false_implies, implies_true, true_and, Nat.forall_lt_succ_left, and_assoc, exists_and_left]

theorem mapM_eq_ok_iff : ∀ {is : List ι} {as : List α},
    is.mapM f = .ok as ↔ List.Forall₂ (fun i a => f i = .ok a) is as
  | [], as => by
    simp only [List.mapM_nil, List.forall₂_nil_left_iff]
    constructor
    · rintro ⟨⟩; rfl
    · rintro rfl; rfl
  | i :: is, as => by
    rw [List.mapM_cons, List.forall₂_cons_left_iff]
    constructor
    · intro h
      rcases hi : f i with e | a
      · rw [hi] at h; cases h
      rw [hi] at h
      cases his : is.mapM f with
      | error e => rw [his] at h; cases h
      | ok as' => rw [his] at h; cases h; exact ⟨a, as', rfl, mapM_eq_ok_iff.1 his, rfl⟩
    · rintro ⟨a, as', ha, has, rfl⟩
      rw [ha, mapM_eq_ok_iff.2 has]; rfl

/-- The error is that of the first item that fails. -/
theorem mapM_eq_error_iff : ∀ {is : List ι} {e : ε},
    is.mapM f = .error e ↔ ∃ done i rest, is = done ++ i :: rest ∧ (∀ j ∈ done, ∃ a, f j = .ok a) ∧ f i = .error e
  | [], e => by
    constructor
    · intro h; cases h
    · rintro ⟨done, i, rest, h, -⟩; cases done <;> cases h
  | i :: is, e => by
    rw [List.mapM_cons]
    cases hi : f i with
    | error e' =>
      constructor
      · intro h; cases h; exact ⟨[], i, is, rfl, by simp, hi⟩
      · rintro ⟨_ | ⟨j, done⟩, i', rest, h, hok, he⟩
        · cases h; rw [hi] at he; cases he; rfl
        · cases h
          obtain ⟨a, ha⟩ := hok i (List.mem_cons_self ..)
          rw [hi] at ha; cases ha
    | ok a =>
      have ih : is.mapM f = .error e ↔ _ := mapM_eq_error_iff
      constructor
      · intro h
        cases his : is.mapM f with
        | ok as => rw [his] at h; cases h
        | error e' =>
          rw [his] at h
          cases h
          obtain ⟨done, j, rest, rfl, hok, he⟩ := ih.1 his
          refine ⟨i :: done, j, rest, rfl, fun k hk => ?_, he⟩
          rcases List.mem_cons.1 hk with rfl | hk
          · exact ⟨a, hi⟩
          · exact hok k hk
      · rintro ⟨_ | ⟨j, done⟩, i', rest, h, hok, he⟩
        · cases h; rw [hi] at he; cases he
        · cases h
          have := ih.2 ⟨done, i', rest, rfl, fun k hk => hok k (List.mem_cons_of_mem _ hk), he⟩
          rw [this]; rfl

theorem mapM_ok_iff {is : List ι} : (∃ as, is.mapM f = .ok as) ↔ ∀ i ∈ is, ∃ a, f i = .ok a := by
  constructor
  · rintro ⟨as, h⟩
    have hall := mapM_eq_ok_iff.1 h
    clear h
    induction hall with
    | nil => simp
    | cons ha _ ih => exact List.forall_mem_cons.2 ⟨⟨_, ha⟩, ih⟩
  · intro h
    cases hm : is.mapM f with
    | ok as => exact ⟨as, rfl⟩
    | error e =>
      obtain ⟨done, i, rest, rfl, -, he⟩ := mapM_eq_error_iff.1 hm
      obtain ⟨a, ha⟩ := h i (by simp)
      rw [ha] at he; cases he

/-- On ascending items, the error is that of the least one that fails. -/
theorem mapM_eq_error_of_least [LinearOrder ι] {is : List ι} (hs : is.Pairwise (· < ·)) {i : ι} (hi : i ∈ is) {e : ε}
    (hbelow : ∀ j ∈ is, j < i → ∃ a, f j = .ok a) (he : f i = .error e) : is.mapM f = .error e := by
  obtain ⟨done, rest, rfl⟩ := List.append_of_mem hi
  refine mapM_eq_error_iff.2 ⟨done, i, rest, rfl, fun j hj => ?_, he⟩
  exact hbelow j (by simp [hj]) ((List.pairwise_append.1 hs).2.2 j hj i (by simp))

theorem mapError_mapM {ε' : Type} (g : ε → ε') (is : List ι) :
    (is.mapM f).mapError g = is.mapM fun i => (f i).mapError g := by
  induction is with
  | nil => rfl
  | cons i is ih =>
    rw [List.mapM_cons, List.mapM_cons, ← ih]
    rcases f i with e | a
    · rfl
    · rcases is.mapM f with e | as
      · rfl
      · rfl

end FirstError

/-! ## Traversals with a state -/

section ForEach

variable {ι ε σ : Type}

/-- `for i in is { step(i)?; }`. -/
def forEach (step : ι → σ → Option (Except ε Unit × σ)) : List ι → σ → Option (Except ε Unit × σ)
  | [], s => some (.ok (), s)
  | i :: is, s => match step i s with
    | none => none
    | some (.error e, s) => some (.error e, s)
    | some (.ok (), s) => forEach step is s

variable {step : ι → σ → Option (Except ε Unit × σ)}

theorem forEach_map {κ : Type} (f : κ → ι) : ∀ (ks : List κ) (s : σ),
    forEach step (ks.map f) s = forEach (fun k => step (f k)) ks s
  | [], _ => rfl
  | k :: ks, s => by
    rw [List.map_cons, forEach, forEach]
    rcases step (f k) s with _ | ⟨e | _, s'⟩
    · rfl
    · rfl
    · exact forEach_map f ks s'

/-- What holds of the start and is kept by every successful step holds at the end of a successful
traversal; it may speak of the items done. -/
theorem forEach_invariant (Inv : List ι → σ → Prop)
    (hstep : ∀ done i s s', Inv done s → step i s = some (.ok (), s') → Inv (done ++ [i]) s') :
    ∀ {is : List ι} {done : List ι} {s s' : σ}, Inv done s → forEach step is s = some (.ok (), s') → Inv (done ++ is) s'
  | [], done, s, s', hs, h => by
    cases h
    rwa [List.append_nil]
  | i :: is, done, s, s', hs, h => by
    unfold forEach at h
    split at h
    · cases h
    · cases h
    · rename_i s1 hi
      have := forEach_invariant Inv hstep (hstep done i s s1 hs hi) h
      rwa [List.append_assoc, List.singleton_append] at this

/-- A traversal whose steps return from every state in `Inv`, into `Inv`, returns. -/
theorem forEach_total (Inv : σ → Prop) (hstep : ∀ i s, Inv s → ∃ r s', step i s = some (r, s') ∧ Inv s') :
    ∀ (is : List ι) {s : σ}, Inv s → ∃ r s', forEach step is s = some (r, s') ∧ Inv s'
  | [], s, hs => ⟨.ok (), s, rfl, hs⟩
  | i :: is, s, hs => by
    obtain ⟨r, s1, hi, hs1⟩ := hstep i s hs
    unfold forEach
    rw [hi]
    cases r with
    | error e => exact ⟨.error e, s1, rfl, hs1⟩
    | ok _ => exact forEach_total Inv hstep is hs1

/-- Two calls panic together, fail together with errors in `E`, or succeed together, in states in `R`. -/
inductive Agree {ε' τ : Type} (E : ε → ε' → Prop) (R : σ → τ → Prop) :
    Option (Except ε Unit × σ) → Option (Except ε' Unit × τ) → Prop
  | panic : Agree E R none none
  | ok {s : σ} {t : τ} (h : R s t) : Agree E R (some (.ok (), s)) (some (.ok (), t))
  | error {e : ε} {e' : ε'} {s : σ} {t : τ} (he : E e e') (h : R s t) :
    Agree E R (some (.error e, s)) (some (.error e', t))

/-- Calls that agree up to their errors succeed together. -/
theorem Agree.ok_iff {ε' : Type} {E : ε → ε' → Prop} {x : Option (Except ε Unit × σ)} {y : Option (Except ε' Unit × σ)}
    (h : Agree E Eq x y) {s : σ} : x = some (.ok (), s) ↔ y = some (.ok (), s) := by
  cases h with
  | panic => simp
  | ok hst => simp [hst]
  | error he hst => simp

/-- Simulation: steps that agree from states in `R` make traversals that do. -/
theorem forEach_agree {ε' τ : Type} {E : ε → ε' → Prop} {R : σ → τ → Prop}
    {step' : ι → τ → Option (Except ε' Unit × τ)} :
    ∀ {is : List ι}, (∀ i ∈ is, ∀ s t, R s t → Agree E R (step i s) (step' i t)) →
      ∀ {s : σ} {t : τ}, R s t → Agree E R (forEach step is s) (forEach step' is t)
  | [], _, s, t, hst => .ok hst
  | i :: is, h, s, t, hst => by
    have hi := h i (List.mem_cons_self ..) s t hst
    unfold forEach
    generalize step i s = x, step' i t = y at hi
    cases hi with
    | panic => exact .panic
    | ok hst' => exact forEach_agree (fun j hj => h j (List.mem_cons_of_mem _ hj)) hst'
    | error he hst' => exact .error he hst'

end ForEach

/-! ## Deliveries -/

section Deliver

variable {ι ε α σ : Type} (page : ι → Except ε α)

/-- A step that fetches the item's page and hands it to a sink. -/
def deliver (sink : ι → α → σ → Option (Except ε Unit × σ)) (i : ι) (s : σ) : Option (Except ε Unit × σ) :=
  match page i with
  | .error e => some (.error e, s)
  | .ok a => sink i a s

/-- The pages before the first that fails. -/
def delivered : List ι → List (ι × α)
  | [] => []
  | i :: is => match page i with
    | .error _ => []
    | .ok a => (i, a) :: delivered is

/-- A sink that takes every page is given the pages before the first that fails, in order. -/
theorem forEach_deliver (write : σ → ι → α → σ) : ∀ (is : List ι) (s : σ),
    forEach (deliver page fun i a s => some (.ok (), write s i a)) is s =
      some ((is.mapM page).map fun _ => (), (delivered page is).foldl (fun s p => write s p.1 p.2) s)
  | [], s => rfl
  | i :: is, s => by
    rw [forEach, delivered, List.mapM_cons]
    cases hi : page i with
    | error e =>
      rw [show deliver page (fun i a s => some (.ok (), write s i a)) i s = some (.error e, s) by rw [deliver, hi]]
      rfl
    | ok a =>
      rw [show deliver page (fun i a s => some (.ok (), write s i a)) i s = some (.ok (), write s i a) by
        rw [deliver, hi]]
      simp only
      rw [forEach_deliver write is]
      cases is.mapM page <;> rfl

variable {page}

/-- A traversal over a sink that returns, returns. -/
theorem forEach_deliver_total {sink : ι → α → σ → Option (Except ε Unit × σ)}
    (hsink : ∀ i a s, page i = .ok a → ∃ r s', sink i a s = some (r, s')) (is : List ι) (s : σ) :
    ∃ r s', forEach (deliver page sink) is s = some (r, s') := by
  have hstep : ∀ i s, True → ∃ r s', deliver page sink i s = some (r, s') ∧ True := by
    intro i s _
    unfold deliver
    rcases hi : page i with e | a
    · exact ⟨.error e, s, rfl, trivial⟩
    obtain ⟨r, s', h⟩ := hsink i a s hi
    exact ⟨r, s', h, trivial⟩
  obtain ⟨r, s', h, -⟩ := forEach_total (fun _ => True) hstep is (s := s) trivial
  exact ⟨r, s', h⟩

/-- A traversal over a sink that takes every page succeeds when every page reads. -/
theorem forEach_deliver_ok {sink : ι → α → σ → Option (Except ε Unit × σ)}
    (hsink : ∀ i a s, page i = .ok a → ∃ s', sink i a s = some (.ok (), s')) :
    ∀ {is : List ι}, (∀ i ∈ is, ∃ a, page i = .ok a) → ∀ s, ∃ s', forEach (deliver page sink) is s = some (.ok (), s')
  | [], _, s => ⟨s, rfl⟩
  | i :: is, hread, s => by
    obtain ⟨a, hi⟩ := hread i (List.mem_cons_self ..)
    obtain ⟨s1, hs1⟩ := hsink i a s hi
    obtain ⟨s', hs'⟩ := forEach_deliver_ok hsink (fun j hj => hread j (List.mem_cons_of_mem _ hj)) s1
    refine ⟨s', ?_⟩
    have hstep : deliver page sink i s = some (.ok (), s1) := by
      unfold deliver
      rw [hi]
      exact hs1
    unfold forEach
    rw [hstep]
    exact hs'

/-- A sink that appends what `f` makes of each page has, after a successful traversal, appended it for every
page, in order. -/
theorem forEach_deliver_append {β : Type} {sink : ι → α → σ → Option (Except ε Unit × σ)} (content : σ → List β)
    (f : ι → List β) (hsink : ∀ i a s s', page i = .ok a → sink i a s = some (.ok (), s') → content s' = content s ++ f i)
    {is : List ι} {s s' : σ} (h : forEach (deliver page sink) is s = some (.ok (), s')) :
    (∀ i ∈ is, ∃ a, page i = .ok a) ∧ content s' = content s ++ is.flatMap f := by
  let Inv (done : List ι) (t : σ) : Prop :=
    (∀ i ∈ done, ∃ a, page i = .ok a) ∧ content t = content s ++ done.flatMap f
  have hrun : Inv ([] ++ is) s' := by
    refine forEach_invariant Inv ?_ ⟨by rintro i ⟨⟩, by rw [List.flatMap_nil, List.append_nil]⟩ h
    rintro done i t t' ⟨hread, happend⟩ hstep
    unfold deliver at hstep
    rcases hi : page i with e | a
    · rw [hi] at hstep; cases hstep
    rw [hi] at hstep
    constructor
    · intro j hj
      rcases List.mem_append.1 hj with hj | hj
      · exact hread j hj
      · obtain rfl := List.mem_singleton.1 hj
        exact ⟨a, hi⟩
    · rw [hsink i a t t' hi hstep, happend, List.flatMap_append, List.append_assoc, List.flatMap_singleton]
  rwa [List.nil_append] at hrun

/-- A sink that collects the pages has them all, in order, when every page reads. -/
theorem forEach_deliver_collect {β : Type} {page : ι → Except ε (List β)} (f : ι → List β)
    (hf : ∀ i a, page i = .ok a → f i = a) {is : List ι} (hread : ∀ i ∈ is, ∃ a, page i = .ok a) (s : List β) :
    forEach (deliver page fun _ a s => some (.ok (), s ++ a)) is s = some (.ok (), s ++ is.flatMap f) := by
  have hsink : ∀ i a (s s' : List β), page i = .ok a → some (.ok (), s ++ a) = some ((.ok () : Except ε Unit), s') →
      s' = s ++ f i := by
    rintro i a s _ hi ⟨⟩
    rw [hf i a hi]
  obtain ⟨as, has⟩ := mapM_ok_iff.2 hread
  have hrun := forEach_deliver page (fun s _ a => s ++ a) is s
  rw [has] at hrun
  obtain ⟨-, hall⟩ := forEach_deliver_append (fun s => s) f hsink hrun
  rw [hrun, hall]
  rfl

end Deliver

end Traverse

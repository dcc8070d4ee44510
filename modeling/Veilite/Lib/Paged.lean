/-
Stores of fixed-size pages that are fetched one at a time and may fail, and reads of ranges across
them: a range is the pages it overlaps, fetched in ascending order up to the first failure, and cut.
A fetch passes a state; without one, a range read is a slice of the concatenation of all pages.
-/
import Veilite.Lib.Traverse

namespace Paged

open Traverse

/-! ## Concatenations of lists of one length -/

section Uniform

variable {α : Type} {n : Nat}

theorem length_flatten_uniform : ∀ {L : List (List α)}, (∀ l ∈ L, l.length = n) → L.flatten.length = L.length * n
  | [], _ => by simp
  | l :: L, h => by
    rw [List.flatten_cons, List.length_append, h l (List.mem_cons_self ..),
      length_flatten_uniform fun x hx => h x (List.mem_cons_of_mem _ hx), List.length_cons, Nat.succ_mul, Nat.add_comm]

theorem flatten_drop_uniform : ∀ {L : List (List α)}, (∀ l ∈ L, l.length = n) → ∀ i,
    (L.drop i).flatten = L.flatten.drop (i * n)
  | L, _, 0 => by simp
  | [], _, i + 1 => by simp
  | l :: L, h, i + 1 => by
    rw [List.drop_succ_cons, flatten_drop_uniform (fun x hx => h x (List.mem_cons_of_mem _ hx)) i, List.flatten_cons,
      Nat.succ_mul, Nat.add_comm, ← List.drop_drop, List.drop_left' (h l (List.mem_cons_self ..))]

theorem flatten_take_uniform : ∀ {L : List (List α)}, (∀ l ∈ L, l.length = n) → ∀ i,
    (L.take i).flatten = L.flatten.take (i * n)
  | L, _, 0 => by simp
  | [], _, i + 1 => by simp
  | l :: L, h, i + 1 => by
    have hl := h l (List.mem_cons_self ..)
    rw [List.take_succ_cons, List.flatten_cons, List.flatten_cons,
      flatten_take_uniform (fun x hx => h x (List.mem_cons_of_mem _ hx)) i, Nat.succ_mul, List.take_append,
      List.take_of_length_le (l := l) (by omega), hl, Nat.add_sub_cancel]

/-- The `i`-th list is the `i`-th window of the concatenation. -/
theorem flatten_window {L : List (List α)} (h : ∀ l ∈ L, l.length = n) {i : Nat} (hi : i < L.length) :
    (L.flatten.drop (i * n)).take n = L[i] := by
  have h1 : ∀ l ∈ L.drop i, l.length = n := fun l hl => h l (List.mem_of_mem_drop hl)
  have hone := flatten_take_uniform h1 1
  rw [Nat.one_mul] at hone
  rw [← flatten_drop_uniform h, ← hone, List.drop_eq_getElem_cons hi, List.take_succ_cons, List.take_zero,
    List.flatten_singleton]

end Uniform

/-! ## Paged stores -/

/-- Pages of `size` elements, numbered from zero, whose fetch may fail. -/
structure Store (σ ε α : Type) where
  size : Nat
  size_pos : 0 < size
  fetch : Nat → σ → Except ε (List α) × σ
  length_fetch : ∀ {i s p}, (fetch i s).1 = .ok p → p.length = size

namespace Store

variable {σ ε α : Type} (P : Store σ ε α)

/-- Fetches pages in order, up to the first failure. -/
def fetchAll : List Nat → σ → Except ε (List (List α)) × σ
  | [], s => (.ok [], s)
  | i :: is, s => match P.fetch i s with
    | (.error e, s) => (.error e, s)
    | (.ok p, s) => match fetchAll is s with
      | (.error e, s) => (.error e, s)
      | (.ok ps, s) => (.ok (p :: ps), s)

/-- The pages a range overlaps, in ascending order. -/
def touched (offset len : Nat) : List Nat :=
  if len = 0 then [] else List.range' (offset / P.size) ((offset + len - 1) / P.size - offset / P.size + 1)

/-- The range of `len` elements from `offset` on. -/
def readRange (offset len : Nat) (s : σ) : Except ε (List α) × σ :=
  match P.fetchAll (P.touched offset len) s with
  | (.error e, s) => (.error e, s)
  | (.ok ps, s) => (.ok ((ps.flatten.drop (offset % P.size)).take len), s)

theorem mem_touched {offset len i : Nat} (hlen : 0 < len) :
    i ∈ P.touched offset len ↔ i * P.size < offset + len ∧ offset < (i + 1) * P.size := by
  have hle : offset / P.size ≤ (offset + len - 1) / P.size := Nat.div_le_div_right (by omega)
  have h1 : offset / P.size ≤ i ↔ offset < (i + 1) * P.size := by
    rw [← Nat.lt_succ_iff, Nat.div_lt_iff_lt_mul P.size_pos]
  have h2 : i ≤ (offset + len - 1) / P.size ↔ i * P.size < offset + len := by
    rw [Nat.le_div_iff_mul_le P.size_pos]; omega
  unfold touched
  rw [if_neg (by omega), List.mem_range'_1, ← h1, ← h2]
  omega

theorem touched_pairwise (offset len : Nat) : (P.touched offset len).Pairwise (· < ·) := by
  unfold touched
  split
  · exact List.Pairwise.nil
  · exact List.pairwise_lt_range'

/-- A range is the rest of its first page and the range after it. -/
theorem touched_step {offset len : Nat} (hlen : 0 < len) :
    P.touched offset len = offset / P.size ::
      P.touched (offset + min (P.size - offset % P.size) len) (len - min (P.size - offset % P.size) len) := by
  have hpos := P.size_pos
  have hmod := Nat.mod_lt offset hpos
  have hdm := Nat.div_add_mod offset P.size
  by_cases hfit : offset % P.size + len ≤ P.size
  · have hlast : (offset + len - 1) / P.size = offset / P.size := by
      rw [show offset + len - 1 = P.size * (offset / P.size) + (offset % P.size + len - 1) by omega,
        Nat.mul_add_div hpos, Nat.div_eq_of_lt (a := offset % P.size + len - 1) (by omega), Nat.add_zero]
    rw [Nat.min_eq_right (by omega), Nat.sub_self]
    unfold touched
    rw [if_neg (by omega), if_pos rfl, hlast, Nat.sub_self, Nat.zero_add, List.range'_one]
  · have hnext : offset + (P.size - offset % P.size) = P.size * (offset / P.size + 1) := by
      rw [Nat.mul_add]; omega
    have hq : (offset + (P.size - offset % P.size)) / P.size = offset / P.size + 1 := by
      rw [hnext, Nat.mul_div_cancel_left _ hpos]
    have hlast : offset / P.size + 1 ≤ (offset + len - 1) / P.size := by
      rw [← hq]; exact Nat.div_le_div_right (by omega)
    rw [Nat.min_eq_left (by omega)]
    unfold touched
    rw [if_neg (by omega), if_neg (by omega), hq,
      show offset + (P.size - offset % P.size) + (len - (P.size - offset % P.size)) - 1 = offset + len - 1 by omega,
      show (offset + len - 1) / P.size - offset / P.size + 1 =
        ((offset + len - 1) / P.size - (offset / P.size + 1) + 1) + 1 by omega, List.range'_succ]

theorem readRange_zero (offset : Nat) (s : σ) : P.readRange offset 0 s = (.ok [], s) := by
  simp [readRange, touched, fetchAll]

/-- Reading a range fetches its first page and then reads the rest. -/
theorem readRange_step (offset : Nat) {len : Nat} (hlen : 0 < len) (s : σ) :
    P.readRange offset len s =
      match P.fetch (offset / P.size) s with
      | (.error e, s) => (.error e, s)
      | (.ok p, s) =>
        match P.readRange (offset + min (P.size - offset % P.size) len)
          (len - min (P.size - offset % P.size) len) s with
        | (.error e, s) => (.error e, s)
        | (.ok rest, s) => (.ok ((p.drop (offset % P.size)).take (min (P.size - offset % P.size) len) ++ rest), s) := by
  have hpos := P.size_pos
  have hmod := Nat.mod_lt offset hpos
  have hdm := Nat.div_add_mod offset P.size
  unfold readRange
  rw [P.touched_step hlen, fetchAll]
  cases hf : P.fetch (offset / P.size) s with
  | mk res s1 =>
    rcases res with e | p
    · rfl
    have hp : p.length = P.size := P.length_fetch (by rw [hf])
    simp only
    cases P.fetchAll _ s1 with
    | mk res' s2 =>
      rcases res' with e | ps
      · rfl
      simp only [Prod.mk.injEq, Except.ok.injEq, and_true, List.flatten_cons]
      have hdrop : (p ++ ps.flatten).drop (offset % P.size) = p.drop (offset % P.size) ++ ps.flatten :=
        List.drop_append_of_le_length (by omega)
      rw [hdrop, List.take_append, List.length_drop, hp]
      by_cases hfit : offset % P.size + len ≤ P.size
      · rw [Nat.min_eq_right (by omega), Nat.sub_self, List.take_zero, Nat.sub_eq_zero_of_le (by omega), List.take_zero]
      · -- the range goes on at the start of the next page
        have hnext : (offset + (P.size - offset % P.size)) % P.size = 0 := by
          rw [show offset + (P.size - offset % P.size) = P.size * (offset / P.size + 1) by rw [Nat.mul_add]; omega]
          exact Nat.mul_mod_right _ _
        rw [Nat.min_eq_left (by omega), hnext, List.drop_zero,
          List.take_of_length_le (l := p.drop (offset % P.size)) (i := len) (by rw [List.length_drop]; omega),
          List.take_of_length_le (l := p.drop (offset % P.size)) (by rw [List.length_drop]; omega)]

theorem length_readRange : ∀ {len offset : Nat} {s : σ} {out : List α},
    (P.readRange offset len s).1 = .ok out → out.length = len := by
  intro len
  induction len using Nat.strong_induction_on with
  | _ len ih =>
    intro offset s out h
    by_cases hlen : len = 0
    · subst hlen; rw [readRange_zero] at h; cases h; rfl
    · have hmod := Nat.mod_lt offset P.size_pos
      rw [P.readRange_step offset (by omega)] at h
      cases hf : P.fetch (offset / P.size) s with
      | mk res s1 =>
        rw [hf] at h
        rcases res with e | p
        · cases h
        have hp : p.length = P.size := P.length_fetch (by rw [hf])
        simp only at h
        cases hr : P.readRange (offset + min (P.size - offset % P.size) len)
          (len - min (P.size - offset % P.size) len) s1 with
        | mk res' s2 =>
          rw [hr] at h
          rcases res' with e | rest
          · cases h
          cases h
          have := ih (len - min (P.size - offset % P.size) len) (by omega) (by rw [hr])
          rw [List.length_append, List.length_take, List.length_drop, this]
          omega

/-! ## Which pages are fetched -/

section Logged

variable {κ : Type} {log : σ → List κ} {entry : Nat → κ}

/-- If each fetch adds its entry to a log kept in the state, then all pages are fetched and logged, or all up to
the first that fails. -/
theorem fetchAll_logged {is : List Nat} (hlog : ∀ i ∈ is, ∀ s, log (P.fetch i s).2 = log s ++ [entry i]) (s : σ) :
    (∃ ps s', P.fetchAll is s = (.ok ps, s') ∧ log s' = log s ++ is.map entry) ∨
      ∃ done i rest ps s1 e s', is = done ++ i :: rest ∧ P.fetchAll done s = (.ok ps, s1) ∧ P.fetch i s1 = (.error e, s') ∧
        P.fetchAll is s = (.error e, s') ∧ log s' = log s ++ (done ++ [i]).map entry := by
  induction is generalizing s with
  | nil => exact .inl ⟨[], s, rfl, (List.append_nil _).symm⟩
  | cons i is ih =>
    have hhead := hlog i (List.mem_cons_self ..) s
    rcases hf : P.fetch i s with ⟨e | p, s1⟩
    · rw [hf] at hhead
      refine .inr ⟨[], i, is, [], s, e, s1, rfl, rfl, hf, ?_, hhead⟩
      simp only [fetchAll, hf]
    rw [hf] at hhead
    rcases ih (fun j hj => hlog j (List.mem_cons_of_mem _ hj)) s1 with
      ⟨ps, s', hall, hlogged⟩ | ⟨done, j, rest, ps, s2, e, s', rfl, hdone, hfail, hall, hlogged⟩
    · refine .inl ⟨p :: ps, s', ?_, ?_⟩
      · simp only [fetchAll, hf, hall]
      · rw [hlogged, hhead, List.append_assoc]
        rfl
    · refine .inr ⟨i :: done, j, rest, p :: ps, s2, e, s', rfl, ?_, hfail, ?_, ?_⟩
      · simp only [fetchAll, hf, hdone]
      · simp only [fetchAll, hf, hall]
      · rw [hlogged, hhead, List.append_assoc]
        rfl

end Logged

section Alike

variable {τ : Type} {P} {Q : Store τ ε α} {R : σ → τ → Prop} (hsize : P.size = Q.size)
  (hfetch : ∀ i s t, R s t → (P.fetch i s).1 = (Q.fetch i t).1 ∧ R (P.fetch i s).2 (Q.fetch i t).2)
include hfetch

/-- Stores whose fetches agree from related states agree on every list of pages. -/
theorem fetchAll_alike : ∀ (is : List Nat) {s : σ} {t : τ}, R s t →
    (P.fetchAll is s).1 = (Q.fetchAll is t).1 ∧ R (P.fetchAll is s).2 (Q.fetchAll is t).2
  | [], s, t, hst => ⟨rfl, hst⟩
  | i :: is, s, t, hst => by
    obtain ⟨hpage, hnext⟩ := hfetch i s t hst
    unfold fetchAll
    rcases hP : P.fetch i s with ⟨e | p, s1⟩ <;> rcases hQ : Q.fetch i t with ⟨e' | q, t1⟩ <;>
      rw [hP, hQ] at hpage hnext <;> cases hpage
    · exact ⟨rfl, hnext⟩
    · obtain ⟨hrest, hlast⟩ := fetchAll_alike is hnext
      dsimp only
      rcases hP' : P.fetchAll is s1 with ⟨e | ps, s2⟩ <;> rcases hQ' : Q.fetchAll is t1 with ⟨e' | qs, t2⟩ <;>
        rw [hP', hQ'] at hrest hlast <;> cases hrest
      · exact ⟨rfl, hlast⟩
      · exact ⟨rfl, hlast⟩

include hsize

/-- And on every range. -/
theorem readRange_alike (offset len : Nat) {s : σ} {t : τ} (hst : R s t) :
    (P.readRange offset len s).1 = (Q.readRange offset len t).1 ∧ R (P.readRange offset len s).2 (Q.readRange offset len t).2 := by
  have htouched : P.touched offset len = Q.touched offset len := by
    unfold touched
    rw [hsize]
  obtain ⟨hpages, hnext⟩ := fetchAll_alike hfetch (P.touched offset len) hst
  unfold readRange
  rw [← htouched, hsize]
  rcases hP : P.fetchAll (P.touched offset len) s with ⟨e | ps, s1⟩ <;>
    rcases hQ : Q.fetchAll (P.touched offset len) t with ⟨e' | qs, t1⟩ <;> rw [hP, hQ] at hpages hnext <;> cases hpages
  · exact ⟨rfl, hnext⟩
  · exact ⟨rfl, hnext⟩

end Alike

/-! ## Without a state -/

section Stateless

variable {ε α : Type} (P : Store Unit ε α)

/-- The page, or why it has none. -/
def page (i : Nat) : Except ε (List α) := (P.fetch i ()).1

/-- The page, or `size` copies of `z` when it has none. -/
def chunk (z : α) (i : Nat) : List α :=
  match P.page i with
  | .ok p => p
  | .error _ => List.replicate P.size z

/-- The concatenation of the first `count` pages. -/
def image (z : α) (count : Nat) : List α := ((List.range count).map (P.chunk z)).flatten

theorem length_chunk (z : α) (i : Nat) : (P.chunk z i).length = P.size := by
  unfold chunk
  split
  · rename_i p h; exact P.length_fetch h
  · simp

theorem fetchAll_eq (is : List Nat) : P.fetchAll is () = (is.mapM P.page, ()) := by
  induction is with
  | nil => rfl
  | cons i is ih =>
    rw [fetchAll, List.mapM_cons]
    cases hf : P.fetch i () with
    | mk res s =>
      have hpage : P.page i = res := by unfold page; rw [hf]
      rw [hpage]
      rcases res with e | p
      · rfl
      simp only [ih]
      cases is.mapM P.page <;> rfl

theorem fetchAll_ok {is : List Nat} {ps : List (List α)} (z : α) (h : is.mapM P.page = .ok ps) :
    ps = is.map (P.chunk z) := by
  have := mapM_eq_ok_iff.1 h
  clear h
  induction this with
  | nil => rfl
  | cons hp _ ih => rw [List.map_cons, ← ih]; unfold chunk; rw [hp]

/-- A range read succeeds exactly when every overlapped page is there, fails as the first one that is not,
and is the slice of the image. -/
theorem readRange_eq (z : α) {offset len count : Nat} (hlen : 0 < len) (hin : offset + len ≤ count * P.size) :
    P.readRange offset len () =
      (((P.touched offset len).mapM P.page).map fun _ => ((P.image z count).drop offset).take len, ()) := by
  unfold readRange
  rw [P.fetchAll_eq]
  rcases hps : (P.touched offset len).mapM P.page with e | ps
  · rfl
  have hpos := P.size_pos
  have hdm := Nat.div_add_mod offset P.size
  have hmod := Nat.mod_lt offset hpos
  have hu : ∀ l ∈ (List.range count).map (P.chunk z), l.length = P.size := by
    intro l hl
    obtain ⟨i, -, rfl⟩ := List.mem_map.1 hl
    exact P.length_chunk z i
  -- the overlapped pages are a window of all pages
  obtain ⟨q, n, htouched, hqn, hoff, hn⟩ : ∃ q n, P.touched offset len = List.range' q n ∧ q + n ≤ count ∧
      q * P.size + offset % P.size = offset ∧ offset % P.size + len ≤ n * P.size := by
    refine ⟨offset / P.size, (offset + len - 1) / P.size - offset / P.size + 1, by unfold touched; rw [if_neg (by omega)],
      ?_, by rw [Nat.mul_comm]; omega, ?_⟩
    · have hle : offset / P.size ≤ (offset + len - 1) / P.size := Nat.div_le_div_right (by omega)
      have : (offset + len - 1) / P.size < count := (Nat.div_lt_iff_lt_mul hpos).2 (by omega)
      omega
    · have hle : offset / P.size ≤ (offset + len - 1) / P.size := Nat.div_le_div_right (by omega)
      have hlt := Nat.lt_div_mul_add hpos (a := offset + len - 1)
      have : (offset + len - 1) / P.size * P.size =
          ((offset + len - 1) / P.size - offset / P.size) * P.size + P.size * (offset / P.size) := by
        rw [Nat.mul_comm P.size, ← Nat.add_mul]; congr 1; omega
      rw [Nat.succ_mul]; omega
  have hwin : (List.range' q n).map (P.chunk z) = (((List.range count).map (P.chunk z)).drop q).take n := by
    rw [← List.map_drop, ← List.map_take, List.range_eq_range', List.drop_range',
      List.take_range'_of_length_ge (by omega), Nat.mul_one, Nat.zero_add]
  simp only [Except.map, Prod.mk.injEq, Except.ok.injEq, and_true]
  rw [P.fetchAll_ok z hps, htouched, hwin, flatten_take_uniform (fun l hl => hu l (List.mem_of_mem_drop hl)),
    flatten_drop_uniform hu, List.drop_take, List.take_take, List.drop_drop, hoff, Nat.min_eq_left (by omega)]
  rfl

/-! ### Ranges in pieces -/

/-- The range, or why a page it overlaps is missing. -/
def range (offset len : Nat) : Except ε (List α) := (P.readRange offset len ()).1

@[simp] theorem range_zero (offset : Nat) : P.range offset 0 = .ok [] := congrArg Prod.fst (P.readRange_zero offset ())

theorem range_step (offset : Nat) {len : Nat} (hlen : 0 < len) :
    P.range offset len = do
      let p ← P.page (offset / P.size)
      let rest ← P.range (offset + min (P.size - offset % P.size) len) (len - min (P.size - offset % P.size) len)
      return (p.drop (offset % P.size)).take (min (P.size - offset % P.size) len) ++ rest := by
  unfold range
  rw [P.readRange_step offset hlen]
  have hpage : P.page (offset / P.size) = (P.fetch (offset / P.size) ()).1 := rfl
  rw [hpage]
  rcases P.fetch (offset / P.size) () with ⟨e | p, s⟩
  · rfl
  · dsimp only [bind, Except.bind]
    rcases P.readRange _ _ s with ⟨e | rest, s'⟩ <;> rfl

/-- What begins inside a page and stays inside it is that part of the page. -/
theorem range_inside {offset len : Nat} (hlen : 0 < len) (hfit : offset % P.size + len ≤ P.size) :
    P.range offset len = (P.page (offset / P.size)).map fun p => (p.drop (offset % P.size)).take len := by
  rw [P.range_step offset hlen, Nat.min_eq_right (by omega), Nat.sub_self, range_zero]
  cases P.page (offset / P.size) <;> simp [Except.map, pure, Except.pure, bind, Except.bind]

/-- A range is its first part and, when that is there, the rest: the same elements, or the same first page missing. A
page both parts overlap is fetched for each. -/
theorem range_add (offset b : Nat) : ∀ a, P.range offset (a + b) = do
    let first ← P.range offset a
    let rest ← P.range (offset + a) b
    return first ++ rest := by
  have hpos := P.size_pos
  intro a
  induction a using Nat.strong_induction_on generalizing offset with
  | _ a ih =>
    have hmod := Nat.mod_lt offset hpos
    have hdm := Nat.div_add_mod offset P.size
    by_cases ha : a = 0
    · subst ha
      simp only [Nat.zero_add, Nat.add_zero, range_zero]
      cases P.range offset b <;> rfl
    by_cases hb : b = 0
    · subst hb
      simp only [Nat.add_zero, range_zero]
      cases P.range offset a <;> simp [pure, Except.pure, bind, Except.bind]
    by_cases hfit : P.size ≤ offset % P.size + a
    · -- the first part reaches the end of the page
      rw [P.range_step offset (by omega : 0 < a + b), P.range_step offset (by omega : 0 < a),
        Nat.min_eq_left (by omega), Nat.min_eq_left (by omega),
        show a + b - (P.size - offset % P.size) = a - (P.size - offset % P.size) + b by omega,
        ih (a - (P.size - offset % P.size)) (by omega),
        show offset + (P.size - offset % P.size) + (a - (P.size - offset % P.size)) = offset + a by omega]
      cases P.page (offset / P.size) with
      | error e => rfl
      | ok p =>
        cases P.range (offset + (P.size - offset % P.size)) (a - (P.size - offset % P.size)) with
        | error e => rfl
        | ok first =>
          cases P.range (offset + a) b with
          | error e => rfl
          | ok rest => simp [pure, Except.pure, bind, Except.bind]
    · -- both parts overlap the page
      have hdiv : (offset + a) / P.size = offset / P.size := by
        rw [← hdm, Nat.add_assoc, Nat.mul_add_div hpos, Nat.mul_add_div hpos, Nat.div_eq_of_lt hmod,
          Nat.div_eq_of_lt (a := offset % P.size + a) (by omega)]
      have hrem : (offset + a) % P.size = offset % P.size + a := by
        rw [Nat.add_mod, Nat.mod_eq_of_lt (a := a) (by omega), Nat.mod_eq_of_lt (by omega)]
      have hmin : min (P.size - offset % P.size) (a + b) = a + min (P.size - (offset % P.size + a)) b := by omega
      rw [P.range_step offset (by omega : 0 < a + b), P.range_inside (by omega : 0 < a) (by omega),
        P.range_step (offset + a) (by omega : 0 < b), hdiv, hrem, hmin, ← Nat.add_assoc,
        show a + b - (a + min (P.size - (offset % P.size + a)) b) = b - min (P.size - (offset % P.size + a)) b by omega]
      cases P.page (offset / P.size) with
      | error e => rfl
      | ok p =>
        simp only [Except.map, bind, Except.bind]
        cases P.range (offset + a + min (P.size - (offset % P.size + a)) b) (b - min (P.size - (offset % P.size + a)) b) with
        | error e => rfl
        | ok rest => simp [pure, Except.pure, List.take_add]

/-- Consecutive ranges, each begun where the last one ended. -/
def ranges : Nat → List Nat → Except ε (List (List α))
  | _, [] => .ok []
  | offset, len :: lens => do
    let first ← P.range offset len
    let rest ← ranges (offset + len) lens
    return first :: rest

/-- However a range is divided, its pieces one after another are the range. -/
theorem range_sum : ∀ (offset : Nat) (lens : List Nat), P.range offset lens.sum = (P.ranges offset lens).map List.flatten
  | offset, [] => by simp [ranges, Except.map]
  | offset, len :: lens => by
    rw [List.sum_cons, range_add, range_sum (offset + len) lens, ranges]
    cases P.range offset len with
    | error e => rfl
    | ok first => cases P.ranges (offset + len) lens <;> rfl

end Stateless

end Store

end Paged

/-
Pages in order: the numbers `1..=count`, what reading one of them gives over an immutable source, and the
traversal of a database page by page.
-/
import Veilite.Core.File
import Veilite.Lib.Traverse

namespace Veilite.Core

open Buffer Traverse

/-- The page numbers `1..=count`. -/
def pageNumbers (count : Nat) : List NonZeroU32 := (List.range' 1 count).filterMap NonZeroU32.new

theorem map_get_pageNumbers {count : Nat} (h : count < 2 ^ 32) :
    (pageNumbers count).map NonZeroU32.get = List.range' 1 count := by
  have hnew : ∀ numbers : List Nat, (∀ n ∈ numbers, 0 < n ∧ n < 2 ^ 32) →
      (numbers.filterMap NonZeroU32.new).map NonZeroU32.get = numbers := by
    intro numbers hn
    induction numbers with
    | nil => rfl
    | cons n numbers ih =>
      obtain ⟨hpos, hlt⟩ := hn n (List.mem_cons_self ..)
      rw [List.filterMap_cons_some (NonZeroU32.new_eq_some hpos hlt), List.map_cons,
        ih fun m hm => hn m (List.mem_cons_of_mem _ hm)]
  apply hnew
  intro n hn
  have := List.mem_range'_1.1 hn
  omega

theorem mem_pageNumbers {count : Nat} {pageNo : NonZeroU32} : pageNo ∈ pageNumbers count ↔ pageNo.get ≤ count := by
  unfold pageNumbers
  rw [List.mem_filterMap]
  constructor
  · rintro ⟨n, hn, hnew⟩
    unfold NonZeroU32.new at hnew
    split at hnew
    · cases hnew
      have := List.mem_range'_1.1 hn
      simp only; omega
    · cases hnew
  · intro h
    exact ⟨pageNo.get, List.mem_range'_1.2 ⟨pageNo.pos, by omega⟩, NonZeroU32.new_eq_some pageNo.pos pageNo.lt⟩

theorem length_pageNumbers {count : Nat} (h : count < 2 ^ 32) : (pageNumbers count).length = count := by
  rw [← List.length_map NonZeroU32.get, map_get_pageNumbers h, List.length_range']

theorem pageNumbers_pairwise {count : Nat} (h : count < 2 ^ 32) :
    (pageNumbers count).Pairwise fun p q => p.get < q.get := by
  rw [← List.pairwise_map (R := (· < ·)), map_get_pageNumbers h]
  exact List.pairwise_lt_range'

section Concatenation

variable {size count : Nat} {page : NonZeroU32 → Bytes}

theorem length_flatMap_pageNumbers (h : count < 2 ^ 32) (hpage : ∀ pageNo, pageNo.get ≤ count → (page pageNo).length = size) :
    ((pageNumbers count).flatMap page).length = count * size := by
  rw [List.flatMap_def, Paged.length_flatten_uniform, List.length_map, length_pageNumbers h]
  intro bytes hmem
  obtain ⟨pageNo, hp, rfl⟩ := List.mem_map.1 hmem
  exact hpage pageNo (mem_pageNumbers.1 hp)

/-- Page `n` of the pages `1..=count` one after another. -/
theorem pageOf_flatMap_pageNumbers (h : count < 2 ^ 32) (hpage : ∀ pageNo, pageNo.get ≤ count → (page pageNo).length = size)
    {pageNo : NonZeroU32} (hle : pageNo.get ≤ count) : pageOf size ((pageNumbers count).flatMap page) pageNo = page pageNo := by
  have hpos := pageNo.pos
  have hu : ∀ bytes ∈ (pageNumbers count).map page, bytes.length = size := by
    intro bytes hmem
    obtain ⟨p, hp, rfl⟩ := List.mem_map.1 hmem
    exact hpage p (mem_pageNumbers.1 hp)
  have hlen := length_pageNumbers h
  have hi : pageNo.get - 1 < ((pageNumbers count).map page).length := by
    rw [List.length_map, hlen]; omega
  have hi' : pageNo.get - 1 < (pageNumbers count).length := by omega
  have hp : (pageNumbers count)[pageNo.get - 1] = pageNo := by
    have hget : (pageNumbers count)[pageNo.get - 1].get = pageNo.get := by
      rw [← List.getElem_map NonZeroU32.get (h := by rw [List.length_map]; exact hi')]
      simp only [map_get_pageNumbers h, List.getElem_range']
      omega
    exact NonZeroU32.ext hget
  unfold pageOf
  rw [List.flatMap_def, Paged.flatten_window hu hi, List.getElem_map, hp]

/-- The pages of a file of whole pages one after another are the file. -/
theorem flatMap_pageOf (size : Nat) (content : Bytes) (h : count < 2 ^ 32) :
    (pageNumbers count).flatMap (pageOf size content) = content.take (count * size) := by
  induction count with
  | zero => rw [Nat.zero_mul, List.take_zero]; rfl
  | succ n ih =>
    have hlast : pageNumbers (n + 1) = pageNumbers n ++ [⟨n + 1, Nat.succ_pos n, h⟩] := by
      unfold pageNumbers
      rw [List.range'_1_concat, List.filterMap_append, Nat.add_comm 1 n,
        List.filterMap_cons_some (NonZeroU32.new_eq_some (Nat.succ_pos n) h), List.filterMap_nil]
    rw [hlast, List.flatMap_append, ih (by omega), List.flatMap_singleton, Nat.succ_mul, List.take_add]
    rfl

end Concatenation

/-- A loop over `1..=count` is a loop over its page numbers. -/
theorem forEach_pageNumbers {ε σ : Type} (step : Nat → σ → Option (Except ε Unit × σ)) {count : Nat} (h : count < 2 ^ 32)
    (s : σ) : forEach step (List.range' 1 count) s = forEach (fun pageNo : NonZeroU32 => step pageNo.get) (pageNumbers count) s := by
  rw [← map_get_pageNumbers h, forEach_map]

/-- The pages up to a count fail as the lowest that does. -/
theorem mapM_pageNumbers_eq_error_iff {ε α : Type} {f : NonZeroU32 → Except ε α} {count : Nat} (h : count < 2 ^ 32) {e : ε} :
    (pageNumbers count).mapM f = .error e ↔ ∃ pageNo : NonZeroU32, pageNo.get ≤ count ∧
      (∀ below : NonZeroU32, below.get < pageNo.get → ∃ a, f below = .ok a) ∧ f pageNo = .error e := by
  rw [mapM_eq_error_iff]
  have hsorted := pageNumbers_pairwise h
  constructor
  · rintro ⟨done, pageNo, rest, hsplit, hdone, he⟩
    have hmem : pageNo ∈ pageNumbers count := by
      rw [hsplit]
      exact List.mem_append_right _ (List.mem_cons_self ..)
    refine ⟨pageNo, mem_pageNumbers.1 hmem, fun below hlt => hdone below ?_, he⟩
    have hbelow : below ∈ pageNumbers count := mem_pageNumbers.2 (Nat.le_trans (Nat.le_of_lt hlt) (mem_pageNumbers.1 hmem))
    rw [hsplit] at hbelow hsorted
    rcases List.mem_append.1 hbelow with hmem | hmem
    · exact hmem
    · rcases List.mem_cons.1 hmem with rfl | hmem
      · exact absurd hlt (Nat.lt_irrefl _)
      · exact absurd (List.rel_of_pairwise_cons (List.pairwise_append.1 hsorted).2.1 hmem) (Nat.lt_asymm hlt)
  · rintro ⟨pageNo, hle, hbelow, he⟩
    obtain ⟨done, rest, hsplit⟩ := List.append_of_mem (mem_pageNumbers.2 hle)
    refine ⟨done, pageNo, rest, hsplit, fun below hmem => hbelow below ?_, he⟩
    rw [hsplit] at hsorted
    exact (List.pairwise_append.1 hsorted).2.2 below hmem pageNo (List.mem_cons_self ..)

/-- They all succeed when each does. -/
theorem mapM_pageNumbers_ok_iff {ε α : Type} {f : NonZeroU32 → Except ε α} {count : Nat} :
    (∃ as, (pageNumbers count).mapM f = .ok as) ↔ ∀ pageNo : NonZeroU32, pageNo.get ≤ count → ∃ a, f pageNo = .ok a := by
  rw [mapM_ok_iff]
  exact ⟨fun h pageNo hle => h pageNo (mem_pageNumbers.2 hle), fun h pageNo hmem => h pageNo (mem_pageNumbers.1 hmem)⟩

namespace SqlCipherReader

variable {E : Type} (C : Primitives) (r : SqlCipherReader Unit E)

/-- `read_page_into` gives the page. -/
def Reads (pageNo : NonZeroU32) (plain : Bytes) : Prop :=
  r.readPageInto C pageNo (List.replicate r.pageSize 0) () = some (⟨.ok (), plain⟩, ())

/-- `read_page_into` fails on the page. -/
def Fails (pageNo : NonZeroU32) (e : ReaderError E) : Prop :=
  ∃ buffer, r.readPageInto C pageNo (List.replicate r.pageSize 0) () = some (⟨.error e, buffer⟩, ())

theorem reads_iff {pageNo : NonZeroU32} {plain : Bytes} :
    r.Reads C pageNo plain ↔ (r.fetchPage C pageNo ()).1 = .ok plain := by
  unfold Reads
  rw [r.readPageInto_eq C List.length_replicate, Option.some.injEq, Prod.mk.injEq, Filled.closed_eq_ok_iff,
    and_iff_left rfl]

/-- Over a file, a page reads as what the page of the file opens to. -/
theorem reads_file {r : SqlCipherReader Unit IoError} {content : Bytes} (hsource : r.source = FileSource content)
    (hlen : content.length = r.fileSize) {pageNo : NonZeroU32} (h : pageNo.get ≤ r.pageCount) {plain : Bytes} :
    r.Reads C pageNo plain ↔ r.decryptor.openPage C pageNo (pageOf r.pageSize content pageNo) = .ok plain := by
  rw [r.reads_iff C, r.fetchPage_file C hsource hlen h, mapError_eq_ok_iff]

theorem fails_iff {pageNo : NonZeroU32} {e : ReaderError E} :
    r.Fails C pageNo e ↔ (r.fetchPage C pageNo ()).1 = .error e := by
  unfold Fails
  rw [r.readPageInto_eq C List.length_replicate]
  cases (r.fetchPage C pageNo ()).1 <;> simp

/-- Opens and visits the pages `1..=page_count` in order, up to the first that does not read or whose visit
fails. -/
def visitPages {τ : Type} (visit : NonZeroU32 → Bytes → τ → Option (Except IoError Unit × τ)) (t : τ) :
    Option (Except (ReaderError E ⊕ IoError) Unit × τ) :=
  forEach (fun pageNo t => do
    let (read, _) ← r.readPageInto C pageNo (List.replicate r.pageSize 0) ()
    match read.result with
    | .error e => return (.error (.inl e), t)
    | .ok () => (visit pageNo read.buffer t).map fun visited => (visited.1.mapError .inr, visited.2))
    (pageNumbers r.pageCount) t

/-- The traversal delivers the pages `1..=page_count` to the visit. -/
theorem visitPages_eq {τ : Type} (visit : NonZeroU32 → Bytes → τ → Option (Except IoError Unit × τ)) (t : τ) :
    r.visitPages C visit t = forEach (deliver (fun pageNo => (r.fetchPage C pageNo ()).1.mapError .inl) fun pageNo bytes t =>
      (visit pageNo bytes t).map fun visited => (visited.1.mapError .inr, visited.2)) (pageNumbers r.pageCount) t := by
  unfold visitPages
  congr 1
  funext pageNo t
  unfold deliver
  rw [r.readPageInto_eq C List.length_replicate]
  dsimp only
  cases (r.fetchPage C pageNo ()).1 <;> rfl

end SqlCipherReader

/-- A visit that collects the pages. -/
def collect (_ : NonZeroU32) (page image : Bytes) : Option (Except IoError Unit × Bytes) := some (.ok (), image ++ page)

theorem SqlCipherReader.reads_sampleReader : sampleReader.Reads sample .min samplePlain :=
  (sampleReader.reads_iff sample).2 fetchPage_sampleReader

end Veilite.Core

/-
Range reads over an immutable source: `read_exact_at` succeeds exactly when the range lies in the file
and every page it overlaps reads, gives the slice of the plaintext image, and otherwise fails as the
first overlapped page that does not read.
-/
import Veilite.Core.Pages

namespace Veilite.Core

open Buffer Traverse

namespace SqlCipherReader

variable {E : Type} (C : Primitives) (r : SqlCipherReader Unit E)

/-! ## The plaintext image -/

/-- What `read_page_into` leaves in the buffer. -/
def pageBuffer (pageNo : NonZeroU32) : Bytes :=
  ((r.readPageInto C pageNo (List.replicate r.pageSize 0) ()).map (·.1.buffer)).getD []

/-- The logical plaintext image: the pages `1..=page_count` one after another. -/
def plaintextImage : Bytes := (pageNumbers r.pageCount).flatMap (r.pageBuffer C)

/-- The page has bytes in `[offset, offset + length)`. -/
def Overlaps (offset length : Nat) (pageNo : NonZeroU32) : Prop :=
  (pageNo.get - 1) * r.pageSize < offset + length ∧ offset < pageNo.get * r.pageSize

theorem page_store (pageNo : NonZeroU32) : (r.store C).page (pageNo.get - 1) = (r.fetchPage C pageNo ()).1 :=
  congrArg Prod.fst (r.store_fetch_page C pageNo ())

theorem pageBuffer_eq (pageNo : NonZeroU32) : r.pageBuffer C pageNo = (r.store C).chunk 0 (pageNo.get - 1) := by
  unfold pageBuffer Paged.Store.chunk
  rw [r.readPageInto_eq C List.length_replicate, r.page_store C]
  cases (r.fetchPage C pageNo ()).1 <;> rfl

theorem pageBuffer_of_reads {pageNo : NonZeroU32} {plain : Bytes} (h : r.Reads C pageNo plain) :
    r.pageBuffer C pageNo = plain := by
  unfold pageBuffer
  rw [h]
  rfl

theorem length_pageBuffer (pageNo : NonZeroU32) : (r.pageBuffer C pageNo).length = r.pageSize := by
  rw [r.pageBuffer_eq C]
  exact (r.store C).length_chunk 0 _

theorem length_plaintextImage : (r.plaintextImage C).length = r.fileSize := by
  rw [plaintextImage, length_flatMap_pageNumbers r.pageCount_lt fun pageNo _ => r.length_pageBuffer C pageNo, ← r.fileSize_eq]

theorem pageOf_plaintextImage {pageNo : NonZeroU32} (h : pageNo.get ≤ r.pageCount) :
    pageOf r.pageSize (r.plaintextImage C) pageNo = r.pageBuffer C pageNo :=
  pageOf_flatMap_pageNumbers r.pageCount_lt (fun pageNo _ => r.length_pageBuffer C pageNo) h

/-- The image is what a traversal of the pages delivers. -/
theorem visitPages_collect (h : ∀ pageNo : NonZeroU32, pageNo.get ≤ r.pageCount → ∃ plain, r.Reads C pageNo plain) :
    r.visitPages C collect [] = some (.ok (), r.plaintextImage C) := by
  rw [r.visitPages_eq C]
  refine forEach_deliver_collect (r.pageBuffer C) (fun pageNo plain hplain => ?_) (fun pageNo hmem => ?_) []
  · exact r.pageBuffer_of_reads C ((r.reads_iff C).2 (mapError_eq_ok_iff.1 hplain))
  · obtain ⟨plain, hplain⟩ := h pageNo (mem_pageNumbers.1 hmem)
    exact ⟨plain, mapError_eq_ok_iff.2 ((r.reads_iff C).1 hplain)⟩

theorem plaintextImage_eq : r.plaintextImage C = (r.store C).image 0 r.pageCount := by
  have hmap : (pageNumbers r.pageCount).map (r.pageBuffer C) =
      ((pageNumbers r.pageCount).map NonZeroU32.get).map fun n => (r.store C).chunk 0 (n - 1) := by
    rw [List.map_map]
    exact List.map_congr_left fun pageNo _ => r.pageBuffer_eq C pageNo
  unfold plaintextImage Paged.Store.image
  rw [List.flatMap_def, hmap, map_get_pageNumbers r.pageCount_lt, List.range'_eq_map_range, List.map_map]
  congr 1
  exact List.map_congr_left fun i _ => by simp

/-- The pages a range overlaps are those the store touches. -/
theorem touched_iff {offset length : Nat} (hlen : 0 < length) (pageNo : NonZeroU32) :
    pageNo.get - 1 ∈ (r.store C).touched offset length ↔ r.Overlaps offset length pageNo := by
  have hpos := pageNo.pos
  rw [(r.store C).mem_touched hlen, show pageNo.get - 1 + 1 = pageNo.get by omega]
  rfl

theorem exists_page_of_touched {offset length i : Nat} (hlen : 0 < length) (hin : offset + length ≤ r.fileSize)
    (hi : i ∈ (r.store C).touched offset length) : ∃ pageNo : NonZeroU32, i = pageNo.get - 1 := by
  have hlt := ((r.store C).mem_touched hlen).1 hi
  have hcount : i < r.pageCount := by
    refine Nat.lt_of_mul_lt_mul_right (a := r.pageSize) ?_
    have : i * r.pageSize < offset + length := hlt.1
    have : r.pageCount * r.pageSize = r.fileSize := r.fileSize_eq
    omega
  have := r.pageCount_lt
  exact ⟨⟨i + 1, Nat.succ_pos i, by omega⟩, rfl⟩

/-! ## Range reads -/

/-- A range in the file is read when its pages are, as the slice of the image, and else fails as the first
page that does not read. -/
theorem fetchRange_eq {offset length : Nat} (hlen : 0 < length) (hin : offset + length ≤ r.fileSize) :
    r.fetchRange C offset length () =
      ((((r.store C).touched offset length).mapM (r.store C).page).map
        fun _ => ((r.plaintextImage C).drop offset).take length, ()) := by
  have := r.fileSize_lt
  unfold fetchRange
  rw [if_neg (by omega), if_neg (by omega), r.plaintextImage_eq C]
  exact (r.store C).readRange_eq 0 hlen (by rw [← r.fileSize_eq] at hin; exact hin)

theorem fetchRange_ok_iff (offset : Nat) {length : Nat} (hlen : 0 < length) :
    (∃ bytes, (r.fetchRange C offset length ()).1 = .ok bytes) ↔ offset + length ≤ r.fileSize ∧
      ∀ pageNo, r.Overlaps offset length pageNo → ∃ plain, r.Reads C pageNo plain := by
  by_cases hin : offset + length ≤ r.fileSize
  · have hmap : (∃ bytes, (r.fetchRange C offset length ()).1 = .ok bytes) ↔
        ∃ pages, ((r.store C).touched offset length).mapM (r.store C).page = .ok pages := by
      rw [r.fetchRange_eq C hlen hin]
      cases ((r.store C).touched offset length).mapM (r.store C).page <;> simp [Except.map]
    rw [hmap, Traverse.mapM_ok_iff, and_iff_right hin]
    constructor
    · intro h pageNo ho
      obtain ⟨plain, hp⟩ := h _ ((r.touched_iff C hlen pageNo).2 ho)
      exact ⟨plain, (r.reads_iff C).2 (r.page_store C pageNo ▸ hp)⟩
    · intro h i hi
      obtain ⟨pageNo, rfl⟩ := r.exists_page_of_touched C hlen hin hi
      obtain ⟨plain, hp⟩ := h pageNo ((r.touched_iff C hlen pageNo).1 hi)
      exact ⟨plain, (r.page_store C pageNo).trans ((r.reads_iff C).1 hp)⟩
  · have hfail : ∀ bytes, (r.fetchRange C offset length ()).1 ≠ .ok bytes := by
      intro bytes h
      unfold fetchRange at h
      split at h
      · cases h
      · rw [if_pos (by omega)] at h; cases h
    constructor
    · rintro ⟨bytes, h⟩; exact absurd h (hfail bytes)
    · rintro ⟨h, -⟩; exact absurd h hin

theorem fetchRange_error {offset length : Nat} (hlen : 0 < length) (hin : offset + length ≤ r.fileSize)
    {pageNo : NonZeroU32} {e : ReaderError E} (ho : r.Overlaps offset length pageNo) (hfail : r.Fails C pageNo e)
    (hbelow : ∀ below, below.get < pageNo.get → r.Overlaps offset length below → ∃ plain, r.Reads C below plain) :
    (r.fetchRange C offset length ()).1 = .error e := by
  have hmap : ((r.store C).touched offset length).mapM (r.store C).page = .error e := by
    refine Traverse.mapM_eq_error_of_least ((r.store C).touched_pairwise offset length) ((r.touched_iff C hlen pageNo).2 ho)
      (fun j hj hlt => ?_) ((r.page_store C pageNo).trans ((r.fails_iff C).1 hfail))
    obtain ⟨below, rfl⟩ := r.exists_page_of_touched C hlen hin hj
    obtain ⟨plain, hp⟩ := hbelow below (by omega) ((r.touched_iff C hlen below).1 hj)
    exact ⟨plain, (r.page_store C below).trans ((r.reads_iff C).1 hp)⟩
  rw [r.fetchRange_eq C hlen hin, hmap]
  rfl

/-- Range reads are slices of the plaintext image, up to the first overlapped page that fails; the direct
path for a complete aligned page and the copy loop agree. -/
theorem readExactAt_eq_slice (offset : Nat) (output : Bytes) (h : output ≠ []) :
    ∃ read, r.readExactAt C offset output () = some (read, ()) ∧
      (read.result = .ok () ↔ offset + output.length ≤ r.fileSize ∧
        ∀ pageNo, r.Overlaps offset output.length pageNo → ∃ plain, r.Reads C pageNo plain) ∧
      (read.result = .ok () → read.buffer = ((r.plaintextImage C).drop offset).take output.length) ∧
      (∀ pageNo e, offset + output.length ≤ r.fileSize → r.Overlaps offset output.length pageNo → r.Fails C pageNo e →
        (∀ below : NonZeroU32, below.get < pageNo.get → r.Overlaps offset output.length below →
          ∃ plain, r.Reads C below plain) → read.result = .error e) ∧
      ∀ pageNo : NonZeroU32, pageNo.get = offset / r.pageSize + 1 → offset % r.pageSize = 0 →
        output.length = r.pageSize → offset + output.length ≤ r.fileSize →
        r.readPageInto C pageNo (zeroize output) () =
          r.copyPages C offset output.length offset 0 (List.replicate r.pageSize 0) (zeroize output) () := by
  have hlen : 0 < output.length := List.length_pos_iff.2 h
  have hok := r.fetchRange_ok_iff C offset hlen
  refine ⟨_, r.readExactAt_eq C h (), ?_, fun hread => ?_, fun pageNo e hin ho hfail hbelow => ?_,
    fun pageNo hpage halign hfull hin => r.readPageInto_eq_copyPages C () hpage halign hfull hin⟩
  · rw [← hok]
    cases (r.fetchRange C offset output.length ()).1 <;> simp
  · cases hf : (r.fetchRange C offset output.length ()).1 with
    | error e => rw [hf] at hread; cases hread
    | ok bytes =>
      have hin := (hok.1 ⟨bytes, hf⟩).1
      rw [r.fetchRange_eq C hlen hin] at hf
      cases hm : ((r.store C).touched offset output.length).mapM (r.store C).page with
      | error e => rw [hm] at hf; cases hf
      | ok pages => rw [hm] at hf; cases hf; rfl
  · rw [r.fetchRange_error C hlen hin ho hfail hbelow]
    rfl

theorem plaintextImage_sampleReader : sampleReader.plaintextImage sample = samplePlain := by
  unfold plaintextImage
  rw [show pageNumbers sampleReader.pageCount = [.min] from rfl, List.flatMap_singleton]
  exact sampleReader.pageBuffer_of_reads sample reads_sampleReader

/-- The page size in the sample header, read across the salt's end. -/
theorem readExactAt_eq_slice_sample :
    ∃ read, sampleReader.readExactAt sample 15 [1, 2, 3] () = some (read, ()) ∧ read.result = .ok () ∧
      read.buffer = ((sampleReader.plaintextImage sample).drop 15).take 3 := by
  obtain ⟨read, hread, hok, hslice, -⟩ := readExactAt_eq_slice sample sampleReader 15 [1, 2, 3] (by decide)
  have hres : read.result = .ok () := by
    refine hok.2 ⟨by decide, fun pageNo ho => ⟨samplePlain, ?_⟩⟩
    have hpos := pageNo.pos
    have hone : (pageNo.get - 1) * 1024 < 18 := ho.1
    obtain rfl : pageNo = .min := NonZeroU32.ext (show pageNo.get = 1 by omega)
    exact reads_sampleReader
  exact ⟨read, hread, hres, hslice hres⟩

end SqlCipherReader

end Veilite.Core

/-
The reader refines a paged store: `read_page_into` fetches one authenticated page, and `read_exact_at`,
whichever of its two paths it takes, reads a range of the store. Over an immutable source a range is
therefore a slice of the plaintext image, and fails as its first failing page does.
-/
import Veilite.Core.PageFormat
import Veilite.Core.Reader
import Veilite.Lib.Paged

namespace Veilite.Core

open Buffer

theorem pageNumberFromIndex_eq {index : Nat} (h : index + 1 < 2 ^ 32) :
    pageNumberFromIndex index = some ⟨index + 1, Nat.succ_pos index, h⟩ := by
  unfold pageNumberFromIndex
  rw [checkedAdd_eq_some (by omega)]
  simp only [Option.bind_eq_bind, Option.bind_some, tryFrom_eq_some h]
  exact NonZeroU32.new_eq_some (Nat.succ_pos index) h

/-- A page opens to as many bytes. -/
theorem PageDecryptor.length_of_openPage {C : Primitives} {d : PageDecryptor} {pageNo : NonZeroU32} {page plain : Bytes}
    (h : d.openPage C pageNo page = .ok plain) : plain.length = d.config.pageSize := by
  have hres := congrArg List.length (d.encodePage_of_openPage C h).2.1
  have := d.config.usable_add_reserve
  have := d.config.reserveSize_eq
  rw [List.length_drop, List.length_replicate] at hres
  omega

namespace SqlCipherReader

variable {σ E : Type} (C : Primitives) (r : SqlCipherReader σ E)

/-! ## One page -/

/-- The plaintext of a physical page, or why it has none. -/
def fetchPage (pageNo : NonZeroU32) (s : σ) : Except (ReaderError E) Bytes × σ :=
  if pageNo.get > r.pageCount then (.error (.pageOutOfRange pageNo.get r.pageCount), s)
  else
    let read := r.source.readExactAt ((pageNo.get - 1) * r.pageSize) (List.replicate r.pageSize 0) s
    match read.1.result with
    | .error e => (.error (.source e), read.2)
    | .ok () => match r.decryptor.openPage C pageNo read.1.buffer with
      | .error e => (.error (.decrypt e), read.2)
      | .ok plain => (.ok plain, read.2)

theorem length_fetchPage {pageNo : NonZeroU32} {s : σ} {plain : Bytes} (h : (r.fetchPage C pageNo s).1 = .ok plain) :
    plain.length = r.pageSize := by
  unfold fetchPage at h
  split at h
  · cases h
  · simp only at h
    split at h
    · cases h
    · split at h
      · cases h
      · rename_i hopen
        cases h
        exact PageDecryptor.length_of_openPage hopen

/-- The byte offset of a page in range does not overflow. -/
theorem page_offset_lt {pageNo : NonZeroU32} (h : pageNo.get ≤ r.pageCount) :
    (pageNo.get - 1) * r.pageSize + r.pageSize ≤ r.fileSize := by
  have hpos := pageNo.pos
  rw [← r.fileSize_eq, ← Nat.succ_mul]
  exact Nat.mul_le_mul_right _ (by omega)

theorem fileSize_lt : r.fileSize < 2 ^ 64 := by
  have h1 := r.pageCount_lt
  have h2 := r.decryptor.config.pageSize_le
  have := Nat.mul_le_mul (Nat.le_of_lt h1) h2
  rw [← r.fileSize_eq]; omega

/-- `read_page_into` on a page-sized buffer, whatever it held. -/
theorem readPageInto_eq {pageNo : NonZeroU32} {output : Bytes} (h : output.length = r.pageSize) (s : σ) :
    r.readPageInto C pageNo output s =
      some (.closed r.pageSize 0 (r.fetchPage C pageNo s).1, (r.fetchPage C pageNo s).2) := by
  have hzero : zeroize output = List.replicate r.pageSize 0 := by rw [← h]; rfl
  unfold readPageInto fetchPage
  simp only [h, ne_eq, not_true_eq_false, if_false, hzero]
  by_cases hc : pageNo.get > r.pageCount
  · rw [if_pos hc, if_pos hc]; rfl
  · have hoff := r.page_offset_lt (Nat.le_of_not_lt hc)
    have hlt := r.fileSize_lt
    have hpos := pageNo.pos
    rw [if_neg hc, if_neg hc]
    simp only [Option.bind_eq_bind, sub_eq_some (show 1 ≤ pageNo.get by omega), Option.bind_some,
      checkedMul_eq_some (show (pageNo.get - 1) * r.pageSize < 2 ^ 64 by omega)]
    have hlen := r.source.length_readExactAt ((pageNo.get - 1) * r.pageSize) (List.replicate r.pageSize 0) s
    rw [List.length_replicate] at hlen
    cases (r.source.readExactAt ((pageNo.get - 1) * r.pageSize) (List.replicate r.pageSize 0) s).1.result with
    | error e =>
      show some (Filled.mk _ (zeroize _), _) = _
      rw [zeroize, fill, hlen]; rfl
    | ok _ =>
      simp only [r.decryptor.decryptPageInPlace_eq C, Option.bind_some, hlen]
      cases r.decryptor.openPage C pageNo _ <;> rfl

theorem readPageInto_of_length_ne {pageNo : NonZeroU32} {output : Bytes} (h : output.length ≠ r.pageSize) (s : σ) :
    r.readPageInto C pageNo output s =
      some (.closed output.length 0 (.error (.invalidOutputPageLength r.pageSize output.length)), s) := by
  unfold readPageInto
  simp only [if_pos h]
  rfl

/-! ## The paged store -/

/-- The reader as a store of pages, numbered from zero. -/
def store : Paged.Store σ (ReaderError E) UInt8 where
  size := r.pageSize
  size_pos := r.decryptor.config.pageSize_pos
  fetch index s :=
    if h : index + 1 < 2 ^ 32 then r.fetchPage C ⟨index + 1, Nat.succ_pos index, h⟩ s
    else (.error (.offsetOverflow index r.pageSize), s)
  length_fetch {index s plain} h := by
    split at h
    · exact r.length_fetchPage C h
    · cases h

theorem store_fetch {index : Nat} (h : index + 1 < 2 ^ 32) (s : σ) :
    (r.store C).fetch index s = r.fetchPage C ⟨index + 1, Nat.succ_pos index, h⟩ s :=
  dif_pos h

/-- The pages of the store are the reader's. -/
theorem store_fetch_page (pageNo : NonZeroU32) (s : σ) : (r.store C).fetch (pageNo.get - 1) s = r.fetchPage C pageNo s := by
  have heq : pageNo.get - 1 + 1 = pageNo.get := Nat.sub_add_cancel pageNo.pos
  rw [r.store_fetch C (heq ▸ pageNo.lt)]
  congr 1
  exact NonZeroU32.ext heq

/-- The pages of a range inside the file have page numbers. -/
theorem index_lt {offset : Nat} (h : offset < r.fileSize) : offset / r.pageSize + 1 < 2 ^ 32 := by
  have hlt : offset / r.pageSize < r.pageCount :=
    (Nat.div_lt_iff_lt_mul r.decryptor.config.pageSize_pos).2 (by rw [r.fileSize_eq]; exact h)
  have := r.pageCount_lt
  omega

/-! ## The copy loop -/

/-- One round: the page under the cursor is fetched into the scratch page, and what the range has of it
is copied after the bytes done. -/
theorem copyPages_step (offset fuel : Nat) {x done : Nat} {scratch output : Bytes} (s : σ)
    (hscratch : scratch.length = r.pageSize) (hdone : done < output.length)
    (hin : x + (output.length - done) ≤ r.fileSize) :
    r.copyPages C offset (fuel + 1) x done scratch output s =
      let copyLength := min (r.pageSize - x % r.pageSize) (output.length - done)
      match (r.store C).fetch (x / r.pageSize) s with
      | (.error e, s) => some (⟨.error e, output⟩, s)
      | (.ok p, s) =>
        r.copyPages C offset fuel (x + copyLength) (done + copyLength) p
          (output.take done ++ (p.drop (x % r.pageSize)).take copyLength ++ output.drop (done + copyLength)) s := by
  have hpos := r.decryptor.config.pageSize_pos
  have hmod : x % r.pageSize < r.pageSize := Nat.mod_lt x hpos
  have hsize : r.pageSize ≤ 65536 := r.decryptor.config.pageSize_le
  have hfile := r.fileSize_lt
  have hidx : x / r.pageSize + 1 < 2 ^ 32 := r.index_lt (by omega)
  rw [r.store_fetch C hidx, copyPages]
  simp only [if_pos hdone, Option.bind_eq_bind, divRem_eq_some hpos, Option.bind_some, pageNumberFromIndex_eq hidx,
    tryFrom_eq_some (show x % r.pageSize < 2 ^ 64 by omega), sub_eq_some (Nat.le_of_lt hmod),
    sub_eq_some (Nat.le_of_lt hdone), r.readPageInto_eq C hscratch]
  generalize hcopy : min (r.pageSize - x % r.pageSize) (output.length - done) = copyLength
  have hcl : copyLength ≤ r.pageSize - x % r.pageSize ∧ copyLength ≤ output.length - done := by omega
  cases hf : r.fetchPage C ⟨x / r.pageSize + 1, Nat.succ_pos _, hidx⟩ s with
  | mk res s1 =>
    rcases res with e | p
    · rfl
    have hp : p.length = r.pageSize := r.length_fetchPage C (by rw [hf])
    have hrange : ((p.drop (x % r.pageSize)).take copyLength).length = copyLength := by
      rw [List.length_take, List.length_drop, hp]; omega
    simp only [Filled.closed_ok]
    simp only [slice_eq_some (l := p) (show x % r.pageSize ≤ x % r.pageSize + copyLength by omega) (by omega),
      Nat.add_sub_cancel_left, Option.bind_some,
      copyFrom_eq_some (l := output) (show done ≤ done + copyLength by omega) (by omega)
        (show ((p.drop (x % r.pageSize)).take copyLength).length = done + copyLength - done by omega),
      tryFrom_eq_some (show copyLength < 2 ^ 64 by omega), checkedAdd_eq_some (show x + copyLength < 2 ^ 64 by omega)]

theorem copyPages_done (offset fuel x : Nat) {done : Nat} (scratch : Bytes) {output : Bytes} (s : σ)
    (hdone : output.length ≤ done) :
    r.copyPages C offset fuel x done scratch output s = some (⟨.ok (), output⟩, s) := by
  unfold copyPages
  rw [if_neg (by omega)]

/-- A loop that has copied its range reads nothing more. -/
theorem copyPages_full (offset fuel x : Nat) {done : Nat} (scratch : Bytes) {output : Bytes} (s : σ)
    (hdone : done = output.length) :
    ∃ buffer, buffer.length = output.length ∧
      r.copyPages C offset fuel x done scratch output s =
        some (⟨((r.store C).readRange x (output.length - done) s).1.map fun _ => (), buffer⟩,
          ((r.store C).readRange x (output.length - done) s).2) ∧
      ∀ bytes, ((r.store C).readRange x (output.length - done) s).1 = .ok bytes → buffer = output.take done ++ bytes := by
  refine ⟨output, rfl, ?_, ?_⟩
  · rw [copyPages_done _ _ _ _ _ _ _ hdone.ge, hdone, Nat.sub_self, Paged.Store.readRange_zero]
    rfl
  · rw [hdone, Nat.sub_self, Paged.Store.readRange_zero, List.take_length]
    rintro bytes ⟨⟩
    exact (List.append_nil _).symm

/-- The loop reads the rest of the range: it never panics and its fuel lasts, every round copying at least
one byte; what it has copied so far is kept. -/
theorem copyPages_eq (offset : Nat) : ∀ (fuel x done : Nat) (scratch output : Bytes) (s : σ),
    scratch.length = r.pageSize → done ≤ output.length → output.length - done ≤ fuel →
    x + (output.length - done) ≤ r.fileSize →
    ∃ buffer, buffer.length = output.length ∧
      r.copyPages C offset fuel x done scratch output s =
        some (⟨((r.store C).readRange x (output.length - done) s).1.map fun _ => (), buffer⟩,
          ((r.store C).readRange x (output.length - done) s).2) ∧
      ∀ bytes, ((r.store C).readRange x (output.length - done) s).1 = .ok bytes → buffer = output.take done ++ bytes := by
  intro fuel
  induction fuel with
  | zero =>
    intro x done scratch output s _ hdone hfuel _
    exact r.copyPages_full C offset 0 x scratch s (by omega)
  | succ fuel ih =>
    intro x done scratch output s hscratch hdone hfuel hin
    obtain hdone | hlt := hdone.eq_or_lt
    · exact r.copyPages_full C offset (fuel + 1) x scratch s hdone
    rw [r.copyPages_step C offset fuel s hscratch hlt hin,
      (r.store C).readRange_step x (show 0 < output.length - done by omega) s, show (r.store C).size = r.pageSize from rfl]
    generalize hcopy : min (r.pageSize - x % r.pageSize) (output.length - done) = copyLength
    have hmod : x % r.pageSize < r.pageSize := Nat.mod_lt x r.decryptor.config.pageSize_pos
    have hcl : 0 < copyLength ∧ copyLength ≤ r.pageSize - x % r.pageSize ∧ copyLength ≤ output.length - done := by omega
    cases hf : (r.store C).fetch (x / r.pageSize) s with
    | mk res s1 =>
      rcases res with e | p
      · exact ⟨output, rfl, rfl, by rintro bytes ⟨⟩⟩
      have hp : p.length = r.pageSize := (r.store C).length_fetch (by rw [hf])
      have hrange : ((p.drop (x % r.pageSize)).take copyLength).length = copyLength := by
        rw [List.length_take, List.length_drop, hp]; omega
      -- the next round continues after the copied bytes
      simp only
      generalize hout : output.take done ++ (p.drop (x % r.pageSize)).take copyLength ++
        output.drop (done + copyLength) = output'
      have hlen : output'.length = output.length := by
        rw [← hout]; simp only [List.length_append, List.length_take, List.length_drop]; omega
      have htake : output'.take (done + copyLength) = output.take done ++ (p.drop (x % r.pageSize)).take copyLength := by
        rw [← hout]; exact List.take_left' (by rw [List.length_append, List.length_take, hrange]; omega)
      obtain ⟨buffer, hb, hrun, hok⟩ := ih (x + copyLength) (done + copyLength) p output' s1 hp (by omega) (by omega)
        (by omega)
      rw [hlen, htake, ← Nat.sub_sub] at hok
      rw [hlen, ← Nat.sub_sub] at hrun
      refine ⟨buffer, hb.trans hlen, ?_, ?_⟩
      · rw [hrun]
        cases (r.store C).readRange (x + copyLength) (output.length - done - copyLength) s1 with
        | mk res' s2 => cases res' <;> rfl
      · intro bytes hbytes
        cases hr : (r.store C).readRange (x + copyLength) (output.length - done - copyLength) s1 with
        | mk res' s2 =>
          rw [hr] at hok hbytes
          rcases res' with e | rest
          · cases hbytes
          cases hbytes
          rw [hok rest rfl, List.append_assoc]

/-! ## Ranges -/

/-- A range of the plaintext image, or why it cannot be read. -/
def fetchRange (offset length : Nat) (s : σ) : Except (ReaderError E) Bytes × σ :=
  if 2 ^ 64 ≤ offset + length then (.error (.offsetOverflow offset length), s)
  else if r.fileSize < offset + length then (.error (.unexpectedEof offset length r.fileSize), s)
  else (r.store C).readRange offset length s

theorem length_fetchRange {offset length : Nat} {s : σ} {bytes : Bytes}
    (h : (r.fetchRange C offset length s).1 = .ok bytes) : bytes.length = length := by
  unfold fetchRange at h
  split at h
  · cases h
  · split at h
    · cases h
    · exact (r.store C).length_readRange h

/-- The direct path for a complete aligned page does what the copy loop does. -/
theorem readPageInto_eq_copyPages {pageNo : NonZeroU32} {offset : Nat} {output : Bytes} (s : σ)
    (hpage : pageNo.get = offset / r.pageSize + 1) (halign : offset % r.pageSize = 0)
    (hlen : output.length = r.pageSize) (hin : offset + output.length ≤ r.fileSize) :
    r.readPageInto C pageNo (zeroize output) s =
      r.copyPages C offset output.length offset 0 (List.replicate r.pageSize 0) (zeroize output) s := by
  have hpos : 0 < r.pageSize := r.decryptor.config.pageSize_pos
  have hidx : offset / r.pageSize + 1 < 2 ^ 32 := r.index_lt (by omega)
  obtain rfl : pageNo = ⟨offset / r.pageSize + 1, Nat.succ_pos _, hidx⟩ := NonZeroU32.ext hpage
  have hz : (zeroize output).length = r.pageSize := by rw [length_fill, hlen]
  rw [r.readPageInto_eq C hz]
  obtain ⟨fuel, hfuel⟩ : ∃ fuel, output.length = fuel + 1 := Nat.exists_eq_succ_of_ne_zero (by omega)
  rw [hfuel, r.copyPages_step C offset fuel s List.length_replicate (by omega) (by rw [hz, ← hlen]; exact hin),
    r.store_fetch C hidx, halign, hz, Nat.sub_zero, Nat.min_self]
  cases hf : r.fetchPage C ⟨offset / r.pageSize + 1, Nat.succ_pos _, hidx⟩ s with
  | mk res s1 =>
    cases res with
    | error e =>
      simp only [Filled.closed_error]
      rw [zeroize, fill, hlen]
    | ok p =>
      have hp : p.length = r.pageSize := r.length_fetchPage C (by rw [hf])
      simp only [Filled.closed_ok, Nat.zero_add, List.take_zero, List.drop_zero, List.nil_append]
      rw [List.take_of_length_le hp.le, List.drop_of_length_le hz.le, List.append_nil,
        copyPages_done _ _ _ _ _ _ _ hp.le]

/-- `read_exact_at` on a non-empty buffer, whatever it held. -/
theorem readExactAt_eq {offset : Nat} {output : Bytes} (h : output ≠ []) (s : σ) :
    r.readExactAt C offset output s =
      some (.closed output.length 0 (r.fetchRange C offset output.length s).1,
        (r.fetchRange C offset output.length s).2) := by
  have hlen : 0 < output.length := List.length_pos_iff.2 h
  have hpos : 0 < r.pageSize := r.decryptor.config.pageSize_pos
  have hfile := r.fileSize_lt
  unfold readExactAt readExactAtNonempty fetchRange
  rw [if_neg h, length_fill]
  by_cases hover : 2 ^ 64 ≤ offset + output.length
  · rw [if_pos hover]
    have hadd : ∀ {length}, tryFrom 64 output.length = some length → checkedAdd 64 offset length = none := by
      intro length hl
      obtain ⟨-, rfl⟩ := tryFrom_eq_some_iff.1 hl
      exact if_neg (by omega)
    cases ht : tryFrom 64 output.length with
    | none => simp [zeroize, fill]
    | some length => simp [hadd ht, zeroize, fill]
  rw [if_neg hover, tryFrom_eq_some (by omega)]
  simp only [checkedAdd_eq_some (Nat.lt_of_not_le hover), gt_iff_lt]
  by_cases heof : r.fileSize < offset + output.length
  · rw [if_pos heof, if_pos heof]
    simp [zeroize, fill]
  rw [if_neg heof, if_neg heof]
  have hidx : offset / r.pageSize + 1 < 2 ^ 32 := r.index_lt (by omega)
  -- the range is inside the file
  obtain ⟨buffer, hb, hrun, hok⟩ := r.copyPages_eq C offset output.length offset 0 (List.replicate r.pageSize 0)
    (zeroize output) s List.length_replicate (Nat.zero_le _) (by simp) (by simp; omega)
  simp only [length_fill, Nat.sub_zero] at hb hrun hok
  -- the fast path of one whole page does what the loop does
  have hpath : (if output.length = r.pageSize ∧ offset % r.pageSize = 0 then
        r.readPageInto C ⟨offset / r.pageSize + 1, Nat.succ_pos _, hidx⟩ (zeroize output) s
      else r.copyPages C offset output.length offset 0 (List.replicate r.pageSize 0) (zeroize output) s) =
      r.copyPages C offset output.length offset 0 (List.replicate r.pageSize 0) (zeroize output) s := by
    split
    · rename_i hfull
      exact r.readPageInto_eq_copyPages C s rfl hfull.2 hfull.1 (by omega)
    · rfl
  simp only [Option.bind_eq_bind, divRem_eq_some hpos, Option.bind_some, pageNumberFromIndex_eq hidx]
  rw [hpath, hrun]
  cases hr : (r.store C).readRange offset output.length s with
  | mk res s1 =>
    rw [hr] at hok
    cases res with
    | error e =>
      show some (Filled.mk _ (zeroize buffer), s1) = _
      rw [zeroize, fill, hb]
      rfl
    | ok bytes => rw [hok bytes rfl]; rfl

end SqlCipherReader

end Veilite.Core

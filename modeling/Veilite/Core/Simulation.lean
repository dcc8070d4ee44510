/-
Sources that answer alike. A reader asks its source for the length, the salt and whole pages inside that length and
for nothing else, so two sources that agree there, from states that stay related, give readers that agree on every
call, whatever else the sources do.
-/
import Veilite.Core.SeekRead
import Veilite.Core.Trace

namespace Veilite.Core

open Buffer

/-- From related states both sources have this length, and give one answer to every read inside it. -/
structure ReadAt.Alike {σ τ E : Type} (size : Except E Nat) (A : ReadAt σ E) (B : ReadAt τ E) (R : σ → τ → Prop) : Prop where
  len : ∀ s t, R s t → (A.len s).1 = size ∧ (B.len t).1 = size ∧ R (A.len s).2 (B.len t).2
  read : ∀ n offset output s t, R s t → size = .ok n → output ≠ [] → offset + output.length ≤ n →
    (A.readExactAt offset output s).1 = (B.readExactAt offset output t).1 ∧
      R (A.readExactAt offset output s).2 (B.readExactAt offset output t).2

namespace SqlCipherReader

/-- Two readers of one database, over sources that answer alike. -/
structure Alike {σ τ E : Type} (r : SqlCipherReader σ E) (r' : SqlCipherReader τ E) (R : σ → τ → Prop) : Prop where
  decryptor : r.decryptor = r'.decryptor
  pageCount : r.pageCount = r'.pageCount
  source : r.source.Alike (.ok r.fileSize) r'.source R

variable {σ τ E : Type} (C : Primitives) {R : σ → τ → Prop}

/-! ## Opening -/

/-- Two opens end alike: with one error, or with readers of one database. -/
inductive OpenAlike (R : σ → τ → Prop) :
    Except (ReaderError E) (SqlCipherReader σ E) × σ → Except (ReaderError E) (SqlCipherReader τ E) × τ → Prop
  | error (e : ReaderError E) {s : σ} {t : τ} (h : R s t) : OpenAlike R (.error e, s) (.error e, t)
  | ok {r : SqlCipherReader σ E} {r' : SqlCipherReader τ E} {s : σ} {t : τ} (h : R s t) (hr : r.Alike r' R) :
    OpenAlike R (.ok r, s) (.ok r', t)

section Salt

variable {source : ReadAt σ E} {config : CipherConfig} {passphrase : Bytes} {s s1 s2 : σ} {count : Nat} {read : Filled E UInt8}
  (hlen : source.len s = (.ok (count * config.pageSize), s1)) (hpos : 0 < count) (hlt : count < 2 ^ 32)
  (hread : source.readExactAt 0 (List.replicate databaseSaltSize 0) s1 = (read, s2))
include hlen hpos hlt hread

/-- What `open` does once the length is accepted, when the salt does not read. -/
theorem open_of_read_error {e : E} (he : read.result = .error e) :
    SqlCipherReader.open C source config passphrase s = (.error (.source e), s2) := by
  have hps := config.pageSize_ge
  have hle := Nat.mul_le_mul_right config.pageSize hpos
  have hcount : count * config.pageSize / config.pageSize = count := Nat.mul_div_cancel _ config.pageSize_pos
  unfold SqlCipherReader.open
  rw [hlen]
  dsimp only
  rw [dif_neg (by omega), dif_neg (by omega), dif_neg (by rw [Nat.mul_mod_left]; simp), dif_pos (by omega)]
  split
  · rename_i e' he'
    rw [hread, he] at he'
    cases he'
    rw [hread]
  · rename_i hok
    rw [hread, he] at hok
    cases hok

/-- When it reads, and the passphrase is empty. -/
theorem open_of_empty (hok : read.result = .ok ()) (hempty : passphrase = []) :
    SqlCipherReader.open C source config passphrase s = (.error (.decrypt .emptyPassphrase), s2) := by
  have hps := config.pageSize_ge
  have hle := Nat.mul_le_mul_right config.pageSize hpos
  have hcount : count * config.pageSize / config.pageSize = count := Nat.mul_div_cancel _ config.pageSize_pos
  unfold SqlCipherReader.open
  rw [hlen]
  dsimp only
  rw [dif_neg (by omega), dif_neg (by omega), dif_neg (by rw [Nat.mul_mod_left]; simp), dif_pos (by omega)]
  split
  · rename_i e he
    rw [hread, hok] at he
    cases he
  split
  · rename_i e he
    rw [PageDecryptor.new, if_pos hempty] at he
    cases he
    rw [hread]
  · rename_i d hd
    exact absurd hempty (PageDecryptor.new_eq_ok_iff.1 hd).1

end Salt

theorem open_alike {size : Except E Nat} {A : ReadAt σ E} {B : ReadAt τ E} (h : A.Alike size B R) (config : CipherConfig)
    (passphrase : Bytes) {s : σ} {t : τ} (hst : R s t) :
    OpenAlike R (SqlCipherReader.open C A config passphrase s) (SqlCipherReader.open C B config passphrase t) := by
  obtain ⟨hA, hB, hnext⟩ := h.len s t hst
  have hlenA : A.len s = (size, (A.len s).2) := by rw [← hA]
  have hlenB : B.len t = (size, (B.len t).2) := by rw [← hB]
  generalize (A.len s).2 = s1 at hlenA hnext
  generalize (B.len t).2 = t1 at hlenB hnext
  -- whole pages and fewer than 2^32, or a refusal by the length alone
  by_cases hgood : ∃ count, size = .ok (count * config.pageSize) ∧ 0 < count ∧ count < 2 ^ 32
  · obtain ⟨count, rfl, hpos, hlt⟩ := hgood
    have hps := config.pageSize_ge
    have hle := Nat.mul_le_mul_right config.pageSize hpos
    obtain ⟨hread, hnext⟩ := h.read _ 0 (List.replicate databaseSaltSize 0) s1 t1 hnext rfl (by simp [databaseSaltSize])
      (by rw [List.length_replicate, databaseSaltSize]; omega)
    have hbuffer := A.length_readExactAt 0 (List.replicate databaseSaltSize 0) s1
    rcases hreadA : A.readExactAt 0 (List.replicate databaseSaltSize 0) s1 with ⟨read, s2⟩
    rcases hreadB : B.readExactAt 0 (List.replicate databaseSaltSize 0) t1 with ⟨read', t2⟩
    rw [hreadA, hreadB] at hread hnext
    rw [hreadA] at hbuffer
    subst hread
    rcases hresult : read.result with e | _
    · rw [open_of_read_error C hlenA hpos hlt hreadA hresult, open_of_read_error C hlenB hpos hlt hreadB hresult]
      exact .error _ hnext
    by_cases hne : passphrase = []
    · rw [open_of_empty C hlenA hpos hlt hreadA hresult hne, open_of_empty C hlenB hpos hlt hreadB hresult hne]
      exact .error _ hnext
    · have hsalt : read = ⟨.ok (), (⟨read.buffer, hbuffer⟩ : Block).toList⟩ := by rw [← hresult]
      obtain ⟨r, hopen, hsource, hdec, hcount⟩ := open_of_reads C hne hlenA hpos hlt (hsalt ▸ hreadA)
      obtain ⟨r', hopen', hsource', hdec', hcount'⟩ := open_of_reads C hne hlenB hpos hlt (hsalt ▸ hreadB)
      rw [hopen, hopen']
      refine .ok hnext ⟨hdec.trans hdec'.symm, hcount.trans hcount'.symm, ?_⟩
      have hsize : r.fileSize = count * config.pageSize := by rw [← r.fileSize_eq, hcount, hdec]
      rw [hsource, hsource', hsize]
      exact h
  · unfold SqlCipherReader.open
    rw [hlenA, hlenB]
    rcases size with e | size
    · exact .error _ hnext
    dsimp only
    split
    · exact .error _ hnext
    split
    · exact .error _ hnext
    split
    · exact .error _ hnext
    split
    · rename_i h0 hsmall hmul hcount
      refine absurd ⟨size / config.pageSize, ?_, Nat.div_pos (by omega) config.pageSize_pos, hcount⟩ hgood
      rw [Nat.div_mul_cancel (Nat.dvd_of_mod_eq_zero (not_not.1 hmul))]
    · exact .error _ hnext

/-! ## Pages and ranges -/

variable {r : SqlCipherReader σ E} {r' : SqlCipherReader τ E} (h : r.Alike r' R)
include h

theorem Alike.pageSize : r.pageSize = r'.pageSize := congrArg PageDecryptor.pageSize h.decryptor

theorem Alike.fileSize : r.fileSize = r'.fileSize := by
  rw [← r.fileSize_eq, ← r'.fileSize_eq, h.pageCount, h.decryptor]

theorem Alike.fetchPage (pageNo : NonZeroU32) {s : σ} {t : τ} (hst : R s t) :
    (r.fetchPage C pageNo s).1 = (r'.fetchPage C pageNo t).1 ∧ R (r.fetchPage C pageNo s).2 (r'.fetchPage C pageNo t).2 := by
  unfold SqlCipherReader.fetchPage
  rw [← h.pageCount, ← h.pageSize, ← h.decryptor]
  split
  · exact ⟨rfl, hst⟩
  rename_i hle
  have hoff := r.page_offset_lt (Nat.le_of_not_lt hle)
  have hpos : 0 < r.pageSize := r.decryptor.config.pageSize_pos
  obtain ⟨hread, hnext⟩ := h.source.read r.fileSize ((pageNo.get - 1) * r.pageSize) (List.replicate r.pageSize 0) s t hst rfl
    (by simp; omega) (by rw [List.length_replicate]; exact hoff)
  dsimp only
  rw [← hread]
  split
  · exact ⟨rfl, hnext⟩
  · split
    · exact ⟨rfl, hnext⟩
    · exact ⟨rfl, hnext⟩

theorem Alike.fetchRange (offset length : Nat) {s : σ} {t : τ} (hst : R s t) :
    (r.fetchRange C offset length s).1 = (r'.fetchRange C offset length t).1 ∧
      R (r.fetchRange C offset length s).2 (r'.fetchRange C offset length t).2 := by
  have hfetch : ∀ i s t, R s t → ((r.store C).fetch i s).1 = ((r'.store C).fetch i t).1 ∧
      R ((r.store C).fetch i s).2 ((r'.store C).fetch i t).2 := by
    intro i s t hst
    by_cases hi : i + 1 < 2 ^ 32
    · rw [r.store_fetch C hi, r'.store_fetch C hi]
      exact h.fetchPage C _ hst
    · have hr : (r.store C).fetch i s = (.error (.offsetOverflow i r.pageSize), s) := dif_neg hi
      have hr' : (r'.store C).fetch i t = (.error (.offsetOverflow i r'.pageSize), t) := dif_neg hi
      rw [hr, hr', h.pageSize]
      exact ⟨rfl, hst⟩
  unfold SqlCipherReader.fetchRange
  rw [← h.fileSize]
  split
  · exact ⟨rfl, hst⟩
  split
  · exact ⟨rfl, hst⟩
  · exact Paged.Store.readRange_alike h.pageSize hfetch offset length hst

theorem Alike.readPageInto (pageNo : NonZeroU32) (output : Bytes) {s : σ} {t : τ} (hst : R s t) :
    ∃ read s' t', r.readPageInto C pageNo output s = some (read, s') ∧ r'.readPageInto C pageNo output t = some (read, t') ∧
      R s' t' := by
  by_cases hlen : output.length = r.pageSize
  · obtain ⟨hpage, hnext⟩ := h.fetchPage C pageNo hst
    refine ⟨_, _, _, r.readPageInto_eq C hlen s, ?_, hnext⟩
    rw [r'.readPageInto_eq C (hlen.trans h.pageSize), hpage, h.pageSize]
  · refine ⟨_, _, _, r.readPageInto_of_length_ne C hlen s, ?_, hst⟩
    rw [r'.readPageInto_of_length_ne C (h.pageSize ▸ hlen), h.pageSize]

theorem Alike.readExactAt (offset : Nat) (output : Bytes) {s : σ} {t : τ} (hst : R s t) :
    ∃ read s' t', r.readExactAt C offset output s = some (read, s') ∧ r'.readExactAt C offset output t = some (read, t') ∧
      R s' t' := by
  by_cases hne : output = []
  · subst hne
    exact ⟨_, _, _, rfl, rfl, hst⟩
  · obtain ⟨hrange, hnext⟩ := h.fetchRange C offset output.length hst
    refine ⟨_, _, _, r.readExactAt_eq C hne s, ?_, hnext⟩
    rw [r'.readExactAt_eq C hne, hrange]

end SqlCipherReader

/-! ## Sources of one content -/

/-- From a state in `I` the source has the content: its length, and every range inside it. -/
structure ReadAt.Holds {σ E : Type} (source : ReadAt σ E) (content : Bytes) (I : σ → Prop) : Prop where
  len : ∀ s, I s → (source.len s).1 = .ok content.length ∧ I (source.len s).2
  read : ∀ offset output s, I s → output ≠ [] → offset + output.length ≤ content.length →
    (source.readExactAt offset output s).1 = ⟨.ok (), (content.drop offset).take output.length⟩ ∧
      I (source.readExactAt offset output s).2

/-- Two sources of one content answer alike. -/
theorem ReadAt.Holds.alike {σ τ E : Type} {A : ReadAt σ E} {B : ReadAt τ E} {content : Bytes} {I : σ → Prop} {J : τ → Prop}
    (hA : A.Holds content I) (hB : B.Holds content J) : A.Alike (.ok content.length) B fun s t => I s ∧ J t where
  len s t hst := ⟨(hA.len s hst.1).1, (hB.len t hst.2).1, (hA.len s hst.1).2, (hB.len t hst.2).2⟩
  read n offset output s t hst hn hne hle := by
    cases hn
    obtain ⟨hreadA, hnextA⟩ := hA.read offset output s hst.1 hne hle
    obtain ⟨hreadB, hnextB⟩ := hB.read offset output t hst.2 hne hle
    exact ⟨hreadA.trans hreadB.symm, hnextA, hnextB⟩

theorem FileSource.holds (content : Bytes) : (FileSource content).Holds content fun _ => True where
  len _ _ := ⟨rfl, trivial⟩
  read _ _ _ _ _ hle := ⟨by rw [FileSource.readExactAt_eq hle], trivial⟩

theorem SliceSource.holds {content : Bytes} (hlt : content.length < 2 ^ 64) : (SliceSource content).Holds content fun _ => True where
  len _ _ := ⟨by simp [SliceSource, tryFrom_eq_some hlt], trivial⟩
  read _ _ _ _ _ hle := ⟨SliceSource.readExactAt_eq hlt hle, trivial⟩

/-- A source keeps its content while its calls are traced. -/
theorem ReadAt.Holds.traced {σ E : Type} {source : ReadAt σ E} {content : Bytes} {I : σ → Prop} (h : source.Holds content I) :
    source.traced.Holds content fun s => I s.1 where
  len s hs := h.len s.1 hs
  read offset output s hs hne hle := h.read offset output s.1 hs hne hle

/-! ## The Windows source -/

namespace SeekRead

variable {σ : Type} (seekRead : SeekRead σ)

theorem length_of_copyFrom {l src l' : Bytes} {lo hi : Nat} (h : copyFrom l lo hi src = some l') : l'.length = l.length := by
  unfold copyFrom at h
  split at h
  · cases h
    simp only [List.length_append, List.length_take, List.length_drop]
    omega
  · cases h

theorem length_fillFrom (offset : Nat) : ∀ (fuel bytesRead : Nat) (output : Bytes) (s : σ) (read : Filled IoError UInt8) (s' : σ),
    seekRead.fillFrom offset fuel bytesRead output s = some (read, s') → read.buffer.length = output.length := by
  intro fuel
  induction fuel with
  | zero =>
    intro bytesRead output s read s' h
    unfold fillFrom at h
    split at h
    · cases h
    · cases h
      rfl
  | succ fuel ih =>
    intro bytesRead output s read s' h
    unfold fillFrom at h
    by_cases hmore : bytesRead < output.length
    case neg =>
      rw [if_neg hmore] at h
      cases h
      rfl
    rw [if_pos hmore] at h
    dsimp only at h
    rcases htry : tryFrom 64 bytesRead with _ | read'
    · rw [htry] at h
      cases h
      rfl
    rcases hadd : checkedAdd 64 offset read' with _ | currentOffset
    · simp only [htry, hadd] at h
      cases h
      rfl
    simp only [htry, hadd, Option.bind_eq_bind, Option.bind_eq_some_iff] at h
    obtain ⟨rest, -, output', hcopy, h⟩ := h
    -- a short read keeps the length of the buffer
    have hlen := length_of_copyFrom hcopy
    split at h
    · cases h
      exact hlen
    split at h
    · cases h
      exact hlen
    obtain ⟨next, -, h⟩ := Option.bind_eq_some_iff.1 h
    exact (ih next output' _ read s' h).trans hlen

/-- `FileSource` on Windows over a file of this length, as a source; a panic, which the files below never cause, leaves
the buffer with an error. -/
def source (fileLen : Nat) : ReadAt σ IoError where
  readExactAt offset output s :=
    (seekRead.readExactAt offset output s).getD (⟨.error (.new (.other 0) "panic"), output⟩, s)
  len s := (.ok fileLen, s)
  length_readExactAt offset output s := by
    rcases h : seekRead.readExactAt offset output s with _ | ⟨read, s'⟩
    · rfl
    · exact seekRead.length_fillFrom offset _ _ output s read s' h

/-- Whatever the lengths of its short reads, it has the content of its file. -/
theorem ReadsFile.holds {seekRead : SeekRead σ} {content : Bytes} (file : seekRead.ReadsFile content) :
    (seekRead.source content.length).Holds content fun _ => True where
  len _ _ := ⟨rfl, trivial⟩
  read offset output s _ hne hle := by
    obtain ⟨read, s', hrun, hok, -, hbuffer⟩ := seekRead.readExactAt_agrees file offset hne s
    refine ⟨?_, trivial⟩
    show ((seekRead.readExactAt offset output s).getD _).1 = _
    rw [hrun, Option.getD_some, ← (hbuffer (hok.2 hle)).1, ← hok.2 hle]

end SeekRead

end Veilite.Core

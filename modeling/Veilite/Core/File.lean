/-
Readers of unchanging files: what `open` establishes, when it succeeds on a file, and that page `n` of
such a reader is page `n` of the file, opened.
-/
import Veilite.Core.Image

namespace Veilite.Core

open Buffer

/-- The key material of a passphrase and a salt. -/
def KeyMaterial.derive (C : Primitives) (config : CipherConfig) (passphrase : Bytes) (salt : Block) : KeyMaterial :=
  let encryptionKey := PageDecryptor.deriveKeyInto C config.kdfAlgorithm passphrase salt.toList config.kdfIterations
  ⟨encryptionKey, PageDecryptor.deriveKeyInto C config.kdfAlgorithm encryptionKey.toList
    (salt.toList.map (· ^^^ 0x3a)) 2⟩

theorem PageDecryptor.new_eq_ok_iff {C : Primitives} {config : CipherConfig} {passphrase : Bytes} {salt : Block}
    {d : PageDecryptor} : PageDecryptor.new C config passphrase salt = .ok d ↔
      passphrase ≠ [] ∧ d = ⟨config, .derive C config passphrase salt⟩ := by
  unfold PageDecryptor.new
  split
  · rename_i h
    simp [h]
  · rename_i h
    rw [Except.ok.injEq]
    constructor
    · rintro rfl; exact ⟨h, rfl⟩
    · rintro ⟨-, rfl⟩; rfl

/-- The bytes of page `pageNo` in a file of `pageSize`-byte pages. -/
def pageOf (pageSize : Nat) (content : Bytes) (pageNo : NonZeroU32) : Bytes :=
  (content.drop ((pageNo.get - 1) * pageSize)).take pageSize

theorem length_pageOf {pageSize : Nat} {content : Bytes} {pageNo : NonZeroU32} (h : pageNo.get * pageSize ≤ content.length) :
    (pageOf pageSize content pageNo).length = pageSize := by
  have hend : (pageNo.get - 1) * pageSize + pageSize = pageNo.get * pageSize := by
    rw [← Nat.succ_mul, Nat.succ_eq_add_one, Nat.sub_add_cancel pageNo.pos]
  rw [pageOf, List.length_take, List.length_drop]
  omega

theorem pageOf_min (pageSize : Nat) (content : Bytes) : pageOf pageSize content .min = content.take pageSize := by
  unfold pageOf
  rw [show (NonZeroU32.min.get - 1) * pageSize = 0 from Nat.zero_mul pageSize, List.drop_zero]

namespace SqlCipherReader

variable {σ E : Type} (C : Primitives)

/-- `open` succeeds when the length is a positive number of pages below 2^32, the salt reads and the
passphrase is not empty; the reader is over the same source, with keys derived from that salt. -/
theorem open_eq_ok {source : ReadAt σ E} {config : CipherConfig} {passphrase : Bytes} {s s' : σ}
    {r : SqlCipherReader σ E} (h : SqlCipherReader.open C source config passphrase s = (.ok r, s')) :
    r.source = source ∧ passphrase ≠ [] ∧ (source.len s).1 = .ok r.fileSize ∧
      (∃ salt : Block, source.readExactAt 0 (List.replicate databaseSaltSize 0) (source.len s).2 =
          (⟨.ok (), salt.toList⟩, s') ∧ r.decryptor = ⟨config, .derive C config passphrase salt⟩) := by
  unfold SqlCipherReader.open at h
  split at h
  · cases h
  rename_i fileSize s0 hlen
  simp only at h
  split at h
  · cases h
  split at h
  · cases h
  split at h
  · cases h
  split at h
  · split at h
    · cases h
    · rename_i hread
      split at h
      · cases h
      · rename_i d hd
        cases h
        obtain ⟨hne, hd⟩ := PageDecryptor.new_eq_ok_iff.1 hd
        refine ⟨rfl, hne, by rw [hlen], _, ?_, hd⟩
        rw [hlen, ← hread]
  · cases h

/-- `open` on a source of whole pages whose salt reads. -/
theorem open_of_reads {source : ReadAt σ E} {config : CipherConfig} {passphrase : Bytes} {salt : Block} {count : Nat}
    {s s1 s2 : σ} (hne : passphrase ≠ []) (hlen : source.len s = (.ok (count * config.pageSize), s1)) (hpos : 0 < count)
    (hlt : count < 2 ^ 32)
    (hread : source.readExactAt 0 (List.replicate databaseSaltSize 0) s1 = (⟨.ok (), salt.toList⟩, s2)) :
    ∃ r, SqlCipherReader.open C source config passphrase s = (.ok r, s2) ∧
      r.source = source ∧ r.decryptor = ⟨config, .derive C config passphrase salt⟩ ∧ r.pageCount = count := by
  have hps := config.pageSize_ge
  have hle := Nat.mul_le_mul_right config.pageSize hpos
  have hcount : count * config.pageSize / config.pageSize = count := Nat.mul_div_cancel _ config.pageSize_pos
  have hsalt' : ∀ h, (⟨(source.readExactAt 0 (List.replicate databaseSaltSize 0) s1).1.buffer, h⟩ : Block) = salt := by
    intro h
    exact Arr.ext (congrArg (·.1.buffer) hread)
  unfold SqlCipherReader.open
  rw [hlen]
  simp only
  rw [dif_neg (by omega), dif_neg (by omega), dif_neg (by rw [Nat.mul_mod_left]; simp), dif_pos (by omega)]
  split
  · rename_i e he
    rw [hread] at he; cases he
  · split
    · rename_i e he
      rw [hsalt', PageDecryptor.new, if_neg hne] at he; cases he
    · rename_i d hd
      rw [hsalt'] at hd
      exact ⟨_, congrArg (Prod.mk _) (congrArg Prod.snd hread), rfl, (PageDecryptor.new_eq_ok_iff.1 hd).2, hcount⟩

/-- `open` on a file of whole pages. -/
theorem open_file {content : Bytes} {config : CipherConfig} {passphrase : Bytes} {salt : Block} {count : Nat}
    (hne : passphrase ≠ []) (hlen : content.length = count * config.pageSize) (hpos : 0 < count) (hlt : count < 2 ^ 32)
    (hsalt : salt.toList = content.take 16) :
    ∃ r, SqlCipherReader.open C (FileSource content) config passphrase () = (.ok r, ()) ∧
      r.source = FileSource content ∧ r.decryptor = ⟨config, .derive C config passphrase salt⟩ ∧ r.pageCount = count := by
  have hps := config.pageSize_ge
  have hle := Nat.mul_le_mul_right config.pageSize hpos
  have hfile : (FileSource content).len () = (.ok (count * config.pageSize), ()) := by
    rw [← hlen]
    rfl
  have hread : (FileSource content).readExactAt 0 (List.replicate databaseSaltSize 0) () = (⟨.ok (), salt.toList⟩, ()) := by
    rw [FileSource.readExactAt_eq (by rw [List.length_replicate, databaseSaltSize]; omega), hsalt]
    rfl
  exact open_of_reads C hne hfile hpos hlt hread

variable (r : SqlCipherReader Unit IoError)

/-- A page of the reader is the page of the file, opened. -/
theorem fetchPage_file {content : Bytes} (hsource : r.source = FileSource content) (hlen : content.length = r.fileSize)
    {pageNo : NonZeroU32} (h : pageNo.get ≤ r.pageCount) :
    (r.fetchPage C pageNo ()).1 =
      (r.decryptor.openPage C pageNo (pageOf r.pageSize content pageNo)).mapError .decrypt := by
  have hoff := r.page_offset_lt h
  unfold fetchPage
  rw [if_neg (by omega), hsource, FileSource.readExactAt_eq (by rw [List.length_replicate]; omega), List.length_replicate]
  have hpage : (content.drop ((pageNo.get - 1) * r.pageSize)).take r.pageSize = pageOf r.pageSize content pageNo := rfl
  simp only [hpage]
  cases r.decryptor.openPage C pageNo (pageOf r.pageSize content pageNo) <;> rfl

/-- The same in terms of the configuration and the keys the reader was opened with. -/
theorem fetchPage_of_open {content : Bytes} {config : CipherConfig} {keys : KeyMaterial} (hsource : r.source = FileSource content)
    (hdec : r.decryptor = ⟨config, keys⟩) (hlen : content.length = r.pageCount * config.pageSize) {pageNo : NonZeroU32}
    (h : pageNo.get ≤ r.pageCount) : (r.fetchPage C pageNo ()).1 =
      (PageDecryptor.openPage C ⟨config, keys⟩ pageNo (pageOf config.pageSize content pageNo)).mapError .decrypt := by
  have hsize : r.pageSize = config.pageSize := by
    show r.decryptor.config.pageSize = _
    rw [hdec]
  have hfile : content.length = r.fileSize := by
    rw [hlen, ← hsize]
    exact r.fileSize_eq
  rw [r.fetchPage_file C hsource hfile h, hsize, hdec]

end SqlCipherReader

/-! ## The one-page database as a file -/

theorem length_samplePage : samplePage.length = 1024 := by
  unfold samplePage
  simp only [List.length_append, List.length_replicate, Arr.length_eq, List.length_nil]

theorem derive_sample : KeyMaterial.derive sample sampleConfig samplePassphrase sampleSalt = sampleKeys := by decide +kernel

def sampleReader : SqlCipherReader Unit IoError where
  source := FileSource samplePage
  decryptor := sampleDecryptor
  fileSize := 1024
  pageCount := 1
  fileSize_eq := rfl
  pageCount_pos := Nat.one_pos
  pageCount_lt := NonZeroU32.one_lt

theorem fetchPage_sampleReader : (sampleReader.fetchPage sample .min ()).1 = .ok samplePlain := by
  have hpage : pageOf sampleReader.pageSize samplePage .min = samplePage :=
    List.take_of_length_le (Nat.le_of_eq length_samplePage)
  rw [sampleReader.fetchPage_file sample rfl length_samplePage (by decide), hpage,
    show sampleReader.decryptor = sampleDecryptor from rfl, openPage_samplePage, Except.mapError]

end Veilite.Core

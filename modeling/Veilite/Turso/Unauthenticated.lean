/-
Bytes nothing authenticates: what lies after the tag in a page's reserve, and on page 1 the salt once the keys
are fixed. Two files that differ in the former alone give the same answers to every sequence of calls; two
pages that differ in either are one page to the decryptor and the codec.
-/
import Veilite.Core.Authenticity
import Veilite.Core.File
import Veilite.Turso.Codec

namespace Veilite.Turso

open Buffer Veilite.Core

section Unauthenticated

variable (C : Primitives) (config : CipherConfig)

/-- Where the filler of a page starts: after the content, the IV and the tag. -/
def fillerStart : Nat := config.usable + 16 + config.hmacAlgorithm.outputLen

/-- Two buffers for page `pageNo` that differ in the filler at most, and on page 1 in the first 16 bytes. -/
def SamePage (pageNo : NonZeroU32) : Bytes → Bytes → Prop :=
  AgreeOn fun i => saltLen pageNo ≤ i ∧ i < fillerStart config

/-- Two files that differ in the filler of their pages at most. -/
def SameFile : Bytes → Bytes → Prop := AgreeOn fun i => i % config.pageSize < fillerStart config

/-! ## Pages -/

variable {config}

/-- The decryptor sees no difference. -/
theorem openPage_same {d : PageDecryptor} {pageNo : NonZeroU32} {a b : Bytes} (h : SamePage d.config pageNo a b) :
    d.openPage C pageNo a = d.openPage C pageNo b := by
  by_cases hlen : a.length = d.config.pageSize
  · have hsalt := saltLen_le d.config pageNo
    apply PageDecryptor.openPage_congr hlen (h.length.symm.trans hlen)
    · apply AgreeOn.window h
      intro i hi
      unfold fillerStart
      omega
    · apply AgreeOn.window h
      intro i hi
      unfold fillerStart
      omega
    · apply AgreeOn.window h
      intro i hi
      unfold fillerStart
      omega
  · unfold PageDecryptor.openPage
    rw [dif_neg hlen, dif_neg (by rw [← h.length]; exact hlen), h.length]

theorem decryptPageInPlace_same {d : PageDecryptor} {pageNo : NonZeroU32} {a b : Bytes}
    (h : SamePage d.config pageNo a b) : d.decryptPageInPlace C pageNo a = d.decryptPageInPlace C pageNo b := by
  rw [d.decryptPageInPlace_eq C, d.decryptPageInPlace_eq C, openPage_same C h, h.length]

/-- Nor does the codec. -/
theorem decodePage_same {codec : SqlCipherCodec} {location : PageLocation} {pageNo : NonZeroU32} {a b : Bytes}
    (h : SamePage codec.decoder.config pageNo a b) (output : Bytes) :
    codec.decodePage C ⟨location, pageNo.get⟩ a output = codec.decodePage C ⟨location, pageNo.get⟩ b output := by
  rw [codec.decodePage_eq C, codec.decodePage_eq C]
  unfold SqlCipherCodec.decoded
  rw [h.length, NonZeroU32.new_eq_some pageNo.pos pageNo.lt]
  dsimp only
  rw [show (⟨pageNo.get, pageNo.pos, pageNo.lt⟩ : NonZeroU32) = pageNo from rfl, openPage_same C h]

/-! ## Files -/

/-- The page is the same in both files. -/
theorem SameFile.page {a b : Bytes} (h : SameFile config a b) (pageNo : NonZeroU32) :
    SamePage config pageNo (pageOf config.pageSize a pageNo) (pageOf config.pageSize b pageNo) where
  length := (AgreeOn.window_agree h _ _).length
  get i hi := by
    apply (AgreeOn.window_agree h _ _).get
    intro hlt
    rw [Nat.add_comm, Nat.add_mul_mod_self_right, Nat.mod_eq_of_lt hlt]
    exact hi.2

/-- The salt is the same. -/
theorem SameFile.salt {a b : Bytes} (h : SameFile config a b) : a.take 16 = b.take 16 := by
  have huse := config.usable_ge
  have hps := config.pageSize_ge
  have hwindow : (a.drop 0).take 16 = (b.drop 0).take 16 := by
    apply AgreeOn.window h
    intro i hi
    rw [Nat.zero_add, Nat.mod_eq_of_lt (by omega), fillerStart]
    omega
  rwa [List.drop_zero, List.drop_zero] at hwindow

/-! ## Readers -/

/-- Two readers that differ in the filler of their files at most. -/
structure SameReader (r r' : SqlCipherReader Unit IoError) : Prop where
  decryptor : r.decryptor = r'.decryptor
  pageCount : r.pageCount = r'.pageCount
  files : ∃ a b, r.source = FileSource a ∧ r'.source = FileSource b ∧ a.length = r.fileSize ∧
    SameFile r.decryptor.config a b

namespace SameReader

variable {r r' : SqlCipherReader Unit IoError} (h : SameReader r r')
include h

theorem pageSize : r.pageSize = r'.pageSize := congrArg PageDecryptor.pageSize h.decryptor

theorem fileSize : r.fileSize = r'.fileSize := by
  rw [← r.fileSize_eq, ← r'.fileSize_eq, h.pageCount, h.decryptor]

/-- Every page reads the same. -/
theorem fetchPage (pageNo : NonZeroU32) : r.fetchPage C pageNo () = r'.fetchPage C pageNo () := by
  obtain ⟨a, b, ha, hb, hlen, hfile⟩ := h.files
  refine Prod.ext (?_ : (r.fetchPage C pageNo ()).1 = (r'.fetchPage C pageNo ()).1) rfl
  by_cases hle : pageNo.get ≤ r.pageCount
  · rw [r.fetchPage_file C ha hlen hle, r'.fetchPage_file C hb (by rw [← hfile.length, hlen, h.fileSize]) (h.pageCount ▸ hle),
      ← h.decryptor, ← h.pageSize]
    rw [openPage_same C (hfile.page pageNo)]
  · unfold SqlCipherReader.fetchPage
    rw [if_pos (by omega), if_pos (by rw [← h.pageCount]; omega), h.pageCount]

/-- So does every range. -/
theorem fetchRange (offset length : Nat) : r.fetchRange C offset length () = r'.fetchRange C offset length () := by
  have hpage : (r.store C).page = (r'.store C).page := by
    funext i
    unfold Paged.Store.page
    by_cases hi : i + 1 < 2 ^ 32
    · rw [r.store_fetch C hi, r'.store_fetch C hi, h.fetchPage C]
    · simp only [SqlCipherReader.store, dif_neg hi, h.pageSize]
  have hsize : (r.store C).size = (r'.store C).size := h.pageSize
  have htouched : (r.store C).touched offset length = (r'.store C).touched offset length := by
    unfold Paged.Store.touched
    rw [hsize]
  unfold SqlCipherReader.fetchRange
  rw [h.fileSize]
  split
  · rfl
  · split
    · rfl
    · unfold Paged.Store.readRange
      rw [(r.store C).fetchAll_eq, (r'.store C).fetchAll_eq, hpage, htouched, hsize]

end SameReader

/-- A call on a reader. -/
inductive ReaderCall
  | readPageInto (pageNo : NonZeroU32) (output : Bytes)
  | readExactAt (offset : Nat) (output : Bytes)

/-- What the caller gets: the result and the buffer. -/
def ReaderCall.run (r : SqlCipherReader Unit IoError) : ReaderCall → Option (Filled (ReaderError IoError) UInt8)
  | .readPageInto pageNo output => (r.readPageInto C pageNo output ()).map Prod.fst
  | .readExactAt offset output => (r.readExactAt C offset output ()).map Prod.fst

theorem SameReader.run {r r' : SqlCipherReader Unit IoError} (h : SameReader r r') (call : ReaderCall) :
    call.run C r = call.run C r' := by
  cases call with
  | readPageInto pageNo output =>
    unfold ReaderCall.run
    dsimp only
    by_cases hlen : output.length = r.pageSize
    · rw [r.readPageInto_eq C hlen, r'.readPageInto_eq C (hlen.trans h.pageSize), h.fetchPage C, h.pageSize]
    · rw [r.readPageInto_of_length_ne C hlen, r'.readPageInto_of_length_ne C (h.pageSize ▸ hlen), h.pageSize]
  | readExactAt offset output =>
    unfold ReaderCall.run
    dsimp only
    by_cases hne : output = []
    · subst hne
      rfl
    · rw [r.readExactAt_eq C hne, r'.readExactAt_eq C hne, h.fetchRange C]

/-! ## Sessions -/

/-- What a caller sees of a file: the error of `open`, or the geometry of the reader and its answers to a
sequence of calls. -/
def session (content : Bytes) (config : CipherConfig) (passphrase : Bytes) (calls : List ReaderCall) :
    Except (ReaderError IoError) (Nat × Nat × List (Option (Filled (ReaderError IoError) UInt8))) :=
  (SqlCipherReader.open C (FileSource content) config passphrase ()).1.map fun r =>
    (r.pageSize, r.pageCount, calls.map (ReaderCall.run C r))

/-- An empty passphrase is refused once the length of the file is accepted. -/
theorem open_file_empty {config : CipherConfig} {content : Bytes} (h0 : content.length ≠ 0)
    (hsmall : ¬ content.length < config.pageSize) (hmul : ¬ content.length % config.pageSize ≠ 0)
    (hlt : content.length / config.pageSize < 2 ^ 32) :
    SqlCipherReader.open C (FileSource content) config [] () = (.error (.decrypt .emptyPassphrase), ()) := by
  have hlen : (FileSource content).len () = (.ok content.length, ()) := rfl
  have hps := config.pageSize_ge
  have hread : (FileSource content).readExactAt 0 (List.replicate databaseSaltSize 0) () = _ :=
    FileSource.readExactAt_eq (by rw [List.length_replicate, databaseSaltSize]; omega)
  unfold SqlCipherReader.open
  rw [hlen]
  simp only
  rw [dif_neg h0, dif_neg hsmall, dif_neg hmul, dif_pos hlt]
  split
  · rename_i e he
    rw [hread] at he
    cases he
  · split
    · rename_i e he
      rw [PageDecryptor.new, if_pos rfl] at he
      cases he
      rfl
    · rename_i d hd
      exact absurd rfl (PageDecryptor.new_eq_ok_iff.1 hd).1

/-- `open` of a file is refused for its length or for an empty passphrase, or it succeeds. -/
theorem open_file_cases (config : CipherConfig) (content passphrase : Bytes) :
    (∃ e, ∀ other : Bytes, other.length = content.length →
      SqlCipherReader.open C (FileSource other) config passphrase () = (.error e, ())) ∨
    (passphrase ≠ [] ∧ ∃ count, content.length = count * config.pageSize ∧ 0 < count ∧ count < 2 ^ 32) := by
  have hlen : ∀ other : Bytes, other.length = content.length → (FileSource other).len () = (.ok content.length, ()) := by
    intro other h
    rw [← h]
    rfl
  -- the length decides every refusal before the passphrase
  by_cases h0 : content.length = 0
  · refine .inl ⟨.emptyFile, fun other h => ?_⟩
    unfold SqlCipherReader.open
    rw [hlen other h]
    exact dif_pos h0
  by_cases hsmall : content.length < config.pageSize
  · refine .inl ⟨.fileTooSmall content.length config.pageSize, fun other h => ?_⟩
    unfold SqlCipherReader.open
    rw [hlen other h]
    simp only
    rw [dif_neg h0, dif_pos hsmall]
  by_cases hmul : content.length % config.pageSize ≠ 0
  · refine .inl ⟨.invalidFileSize content.length config.pageSize, fun other h => ?_⟩
    unfold SqlCipherReader.open
    rw [hlen other h]
    simp only
    rw [dif_neg h0, dif_neg hsmall, dif_pos hmul]
  have hcount := Nat.div_mul_cancel (Nat.dvd_of_mod_eq_zero (not_not.1 hmul))
  by_cases hlt : content.length / config.pageSize < 2 ^ 32
  · by_cases hne : passphrase = []
    · refine .inl ⟨.decrypt .emptyPassphrase, fun other h => ?_⟩
      rw [hne]
      rw [← h] at h0 hsmall hmul hlt
      exact open_file_empty C h0 hsmall hmul hlt
    · exact .inr ⟨hne, content.length / config.pageSize, hcount.symm, Nat.div_pos (by omega) config.pageSize_pos, hlt⟩
  · refine .inl ⟨.tooManyPages (content.length / config.pageSize), fun other h => ?_⟩
    unfold SqlCipherReader.open
    rw [hlen other h]
    simp only
    rw [dif_neg h0, dif_neg hsmall, dif_neg hmul, dif_neg hlt]

/-- Bytes that nothing authenticates influence no result: every session on a file is the session on any other
that differs in the filler of its pages, and pages that differ in the filler, page 1 also in its first 16 bytes,
are one page to a decryptor and to a codec whose keys are fixed. -/
theorem unauthenticated_bytes_ignored :
    (∀ (config : CipherConfig) (passphrase a b : Bytes) (calls : List ReaderCall), SameFile config a b →
      session C a config passphrase calls = session C b config passphrase calls) ∧
    (∀ (d : PageDecryptor) (pageNo : NonZeroU32) (a b : Bytes), SamePage d.config pageNo a b →
      d.decryptPageInPlace C pageNo a = d.decryptPageInPlace C pageNo b) ∧
    (∀ (codec : SqlCipherCodec) (location : PageLocation) (pageNo : NonZeroU32) (a b output : Bytes),
      SamePage codec.decoder.config pageNo a b →
        codec.decodePage C ⟨location, pageNo.get⟩ a output = codec.decodePage C ⟨location, pageNo.get⟩ b output) := by
  refine ⟨?_, fun d pageNo a b h => decryptPageInPlace_same C h,
    fun codec location pageNo a b output h => decodePage_same C h output⟩
  intro config passphrase a b calls h
  unfold session
  rcases open_file_cases C config a passphrase with ⟨e, he⟩ | ⟨hne, count, hlen, hpos, hlt⟩
  · rw [he a rfl, he b h.length.symm]
  have hsalt : (a.take 16).length = 16 := by
    have hps := config.pageSize_ge
    have hle := Nat.mul_le_mul_right config.pageSize hpos
    rw [List.length_take]
    omega
  -- both files give a reader, with the keys of the one salt
  obtain ⟨r, hopen, hsource, hdec, hcount⟩ := SqlCipherReader.open_file C hne hlen hpos hlt
    (show (⟨a.take 16, hsalt⟩ : Block).toList = a.take 16 from rfl)
  obtain ⟨r', hopen', hsource', hdec', hcount'⟩ := SqlCipherReader.open_file C hne (h.length.symm.trans hlen)
    hpos hlt (show (⟨a.take 16, hsalt⟩ : Block).toList = b.take 16 from h.salt)
  have hsame : SameReader r r' := by
    refine ⟨hdec.trans hdec'.symm, hcount.trans hcount'.symm, a, b, hsource, hsource', ?_, ?_⟩
    · rw [← r.fileSize_eq, hcount, hdec]
      exact hlen
    · rw [hdec]
      exact h
  rw [hopen, hopen']
  simp only [Except.map, hsame.pageSize, hsame.pageCount]
  rw [List.map_congr_left fun call _ => hsame.run C call]

end Unauthenticated

/-- Page 1 of a 1024-byte SHA-1 configuration has 12 bytes of filler. -/
def sampleFillerConfig : CipherConfig := { sampleConfig with kdfAlgorithm := .sha1, hmacAlgorithm := .sha1 }

/-- A zero page, and one whose last byte is not zero. -/
theorem unauthenticated_bytes_ignored_sample :
    session sample (List.replicate 1023 0 ++ [0]) sampleFillerConfig samplePassphrase [.readExactAt 0 [0, 0]] =
      session sample (List.replicate 1023 0 ++ [1]) sampleFillerConfig samplePassphrase [.readExactAt 0 [0, 0]] := by
  have hstart : fillerStart sampleFillerConfig = 1012 := rfl
  have hsize : sampleFillerConfig.pageSize = 1024 := rfl
  apply (unauthenticated_bytes_ignored sample).1
  constructor
  · rw [List.length_append, List.length_append, List.length_singleton, List.length_singleton]
  · intro i hi
    rw [hstart, hsize] at hi
    by_cases hlt : i < 1023
    · have hlen : i < (List.replicate 1023 (0 : UInt8)).length := by rwa [List.length_replicate]
      rw [List.getElem?_append_left hlen, List.getElem?_append_left hlen]
    · rw [List.getElem?_eq_none, List.getElem?_eq_none]
      all_goals
        rw [List.length_append, List.length_replicate, List.length_singleton]
        omega

end Veilite.Turso

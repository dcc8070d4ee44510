/-
The database file as a whole. An image is a plaintext database with what the format asks of one; its encoding under
a passphrase seals page after page, with a salt, IVs and filler that are the writer's choice. What the reader accepts
entire is exactly what some image encodes to, and it reads that image back.
-/
import Veilite.Core.Ranges

namespace Veilite.Core

open Buffer Traverse PageDecryptor

/-! ## Images -/

/-- A plaintext database of a configuration: whole pages whose reserve is zero, the first with a header that names
the configuration's page size and reserve. -/
structure Image (config : CipherConfig) where
  bytes : Bytes
  pageCount : Nat
  pageCount_pos : 0 < pageCount
  pageCount_lt : pageCount < 2 ^ 32
  length_bytes : bytes.length = pageCount * config.pageSize
  reserve : ∀ pageNo : NonZeroU32, pageNo.get ≤ pageCount →
    (pageOf config.pageSize bytes pageNo).drop config.usable = List.replicate config.reserveSize 0
  header : HeaderMatches config (pageOf config.pageSize bytes .min)

/-- What the writer of a database is free to choose. -/
structure Sealing (config : CipherConfig) where
  salt : Block
  iv : NonZeroU32 → Block
  filler : NonZeroU32 → Arr UInt8 (config.reserveSize - 16 - config.hmacAlgorithm.outputLen)

namespace Image

variable (C : Primitives) {config : CipherConfig} (image : Image config) (passphrase : Bytes) (sealing : Sealing config)

def page (pageNo : NonZeroU32) : Bytes := pageOf config.pageSize image.bytes pageNo

/-- A page as the reference encoder seals it. -/
def encodedPage (pageNo : NonZeroU32) : Bytes :=
  (encodePage C config (.derive C config passphrase sealing.salt) pageNo (image.page pageNo) sealing.salt
    (sealing.iv pageNo) (sealing.filler pageNo).toList).getD []

/-- The encrypted file. -/
def encode : Bytes := (pageNumbers image.pageCount).flatMap (image.encodedPage C passphrase sealing)

variable {image passphrase sealing}

theorem length_page {pageNo : NonZeroU32} (h : pageNo.get ≤ image.pageCount) : (image.page pageNo).length = config.pageSize :=
  length_pageOf (by rw [image.length_bytes]; exact Nat.mul_le_mul_right _ h)

/-- The encoder takes every page of an image: the content is whole blocks, the rest of the page fills up. -/
theorem encodePage_eq {pageNo : NonZeroU32} (h : pageNo.get ≤ image.pageCount) :
    encodePage C config (.derive C config passphrase sealing.salt) pageNo (image.page pageNo) sealing.salt
        (sealing.iv pageNo) (sealing.filler pageNo).toList = some (image.encodedPage C passphrase sealing pageNo) ∧
      (image.encodedPage C passphrase sealing pageNo).length = config.pageSize ∧
      (pageNo.get = 1 → (image.encodedPage C passphrase sealing pageNo).take 16 = sealing.salt.toList) := by
  have hs := saltLen_le config pageNo
  have htag := config.tag_fits
  have huse := config.usable_add_reserve
  have hlen := length_page h
  have hmid : (((image.page pageNo).drop (saltLen pageNo)).take (config.usable - saltLen pageNo)).length =
      config.usable - saltLen pageNo := by
    rw [List.length_take, List.length_drop]
    omega
  obtain ⟨ciphertext, hct, hclen⟩ := Cbc.exists_encryptBytes Block.xor
    (C.aes256 (KeyMaterial.derive C config passphrase sealing.salt).encryptionKey) (by decide) (sealing.iv pageNo)
    (hmid ▸ Nat.dvd_sub config.usable_dvd (saltLen_dvd pageNo))
  rw [hmid] at hclen
  unfold encodedPage
  unfold encodePage
  simp only [hct, Option.bind_eq_bind, Option.bind_some, Option.pure_def, Option.getD_some]
  refine ⟨trivial, ?_, fun h1 => ?_⟩
  · have hhead : (if pageNo.get = 1 then sealing.salt.toList else []).length = saltLen pageNo := by
      unfold saltLen
      split <;> simp
    simp only [List.length_append, hhead, hclen, Arr.length_eq]
    omega
  · rw [if_pos h1, List.take_left' sealing.salt.length_eq]

theorem length_encode : (image.encode C passphrase sealing).length = image.pageCount * config.pageSize :=
  length_flatMap_pageNumbers image.pageCount_lt fun _ h => (encodePage_eq C h).2.1

theorem pageOf_encode {pageNo : NonZeroU32} (h : pageNo.get ≤ image.pageCount) :
    pageOf config.pageSize (image.encode C passphrase sealing) pageNo = image.encodedPage C passphrase sealing pageNo :=
  pageOf_flatMap_pageNumbers image.pageCount_lt (fun _ hp => (encodePage_eq C hp).2.1) h

/-- The file starts with the salt. -/
theorem take_encode : (image.encode C passphrase sealing).take 16 = sealing.salt.toList := by
  have hps := config.pageSize_ge
  have hone : NonZeroU32.min.get ≤ image.pageCount := image.pageCount_pos
  rw [← (encodePage_eq C hone).2.2 rfl, ← pageOf_encode C hone, pageOf_min, List.take_take, Nat.min_eq_left (by omega)]

/-- An encoded page opens to the page of the image. -/
theorem openPage_encode {pageNo : NonZeroU32} (h : pageNo.get ≤ image.pageCount) :
    PageDecryptor.openPage C ⟨config, .derive C config passphrase sealing.salt⟩ pageNo
      (pageOf config.pageSize (image.encode C passphrase sealing) pageNo) = .ok (image.page pageNo) := by
  have hlen : (image.encodedPage C passphrase sealing pageNo).length = config.pageSize := (encodePage_eq C h).2.1
  rw [pageOf_encode C h]
  refine openPage_encodePage C _ (encodePage_eq C h).1 hlen (image.reserve pageNo h) fun h1 => ?_
  obtain rfl : pageNo = .min := NonZeroU32.ext h1
  exact image.header

/-- The pages of an image are the image. -/
theorem flatMap_page : (pageNumbers image.pageCount).flatMap image.page = image.bytes := by
  have hpages := flatMap_pageOf config.pageSize image.bytes image.pageCount_lt
  rw [← image.length_bytes, List.take_length] at hpages
  exact hpages

end Image

/-! ## Files -/

/-- The reader opens the file and reads all of it, as `plain`. -/
def Accepts (C : Primitives) (config : CipherConfig) (passphrase content plain : Bytes) : Prop :=
  ∃ r, SqlCipherReader.open C (FileSource content) config passphrase () = (.ok r, ()) ∧
    r.visitPages C collect [] = some (.ok (), plain)

section Format

variable {C : Primitives} {config : CipherConfig} {passphrase content plain : Bytes}

/-- A traversal that collects succeeds when every page reads, and has the image. -/
theorem SqlCipherReader.visitPages_collect_iff {r : SqlCipherReader Unit IoError} :
    r.visitPages C collect [] = some (.ok (), plain) ↔
      (∀ pageNo : NonZeroU32, pageNo.get ≤ r.pageCount → ∃ page, r.Reads C pageNo page) ∧ plain = r.plaintextImage C := by
  constructor
  · intro h
    have hreads : ∀ pageNo : NonZeroU32, pageNo.get ≤ r.pageCount → ∃ page, r.Reads C pageNo page := by
      rw [r.visitPages_eq C] at h
      obtain ⟨hread, -⟩ := forEach_deliver_append (fun _ => ([] : Bytes)) (fun _ => []) (fun _ _ _ _ _ _ => rfl) h
      intro pageNo hle
      obtain ⟨page, hpage⟩ := hread pageNo (mem_pageNumbers.2 hle)
      exact ⟨page, (r.reads_iff C).2 (mapError_eq_ok_iff.1 hpage)⟩
    rw [r.visitPages_collect C hreads] at h
    cases h
    exact ⟨hreads, rfl⟩
  · rintro ⟨hreads, rfl⟩
    exact r.visitPages_collect C hreads

/-- An encoding is accepted, as its image. -/
theorem Image.accepts_encode (image : Image config) (sealing : Sealing config) (hne : passphrase ≠ []) :
    Accepts C config passphrase (image.encode C passphrase sealing) image.bytes := by
  have hlen : (image.encode C passphrase sealing).length = image.pageCount * config.pageSize := Image.length_encode C
  obtain ⟨r, hopen, hsource, hdec, hcount⟩ := SqlCipherReader.open_file C hne hlen image.pageCount_pos
    image.pageCount_lt (Image.take_encode C).symm
  have hpage : ∀ pageNo : NonZeroU32, pageNo.get ≤ r.pageCount → r.Reads C pageNo (image.page pageNo) := by
    intro pageNo hle
    rw [r.reads_iff C, r.fetchPage_of_open C hsource hdec (hcount ▸ hlen) hle,
      Image.openPage_encode C (hcount ▸ hle)]
    rfl
  refine ⟨r, hopen, SqlCipherReader.visitPages_collect_iff.2 ⟨fun pageNo hle => ⟨_, hpage pageNo hle⟩, ?_⟩⟩
  unfold SqlCipherReader.plaintextImage
  rw [hcount, ← Image.flatMap_page]
  apply List.flatMap_congr
  intro pageNo hmem
  exact (r.pageBuffer_of_reads C (hpage pageNo (hcount ▸ mem_pageNumbers.1 hmem))).symm

/-- A page of an accepted file, as the encoder seals it. On page 1 the salt is where the encoder puts it. -/
theorem exists_encodePage {salt : Block} {pageNo : NonZeroU32} {page plain : Bytes}
    (h : PageDecryptor.openPage C ⟨config, .derive C config passphrase salt⟩ pageNo page = .ok plain)
    (hsalt : pageNo.get = 1 → page.take 16 = salt.toList) :
    ∃ (iv : Block) (filler : Arr UInt8 (config.reserveSize - 16 - config.hmacAlgorithm.outputLen)),
      encodePage C config (.derive C config passphrase salt) pageNo plain salt iv filler.toList = some page := by
  have hs := saltLen_le config pageNo
  have huse := config.usable_add_reserve
  have hplain : plain.length = config.pageSize := PageDecryptor.length_of_openPage h
  obtain ⟨hlen, -, ⟨salt', iv, filler, henc⟩, -⟩ := PageDecryptor.encodePage_of_openPage C _ h
  unfold encodePage at henc ⊢
  rw [Option.bind_eq_bind, Option.bind_eq_some_iff] at henc
  obtain ⟨ciphertext, hct, henc⟩ := henc
  have hclen := Cbc.length_decryptBytes _ ((cbc_iff C).1 hct)
  simp only [List.length_take, List.length_drop] at hclen
  simp only [Option.pure_def, Option.some.injEq] at henc
  have hhead : (if pageNo.get = 1 then salt'.toList else []) = if pageNo.get = 1 then salt.toList else [] := by
    by_cases h1 : pageNo.get = 1
    · rw [if_pos h1, if_pos h1, ← hsalt h1, ← henc, if_pos h1, List.take_left' salt'.length_eq]
    · rw [if_neg h1, if_neg h1]
  have hheadLen : (if pageNo.get = 1 then salt.toList else []).length = saltLen pageNo := by
    unfold saltLen
    split <;> simp
  rw [hhead] at henc
  -- what is left of the page is filler
  have hfiller : filler.length = config.reserveSize - 16 - config.hmacAlgorithm.outputLen := by
    have hsum := congrArg List.length henc
    simp only [List.length_append, hheadLen, Arr.length_eq, hlen] at hsum
    omega
  exact ⟨iv, ⟨filler, hfiller⟩, by simp only [hct, Option.bind_eq_bind, Option.bind_some, Option.pure_def, henc]⟩

/-- What `open` has established about a file it opened. -/
theorem SqlCipherReader.open_file_eq_ok {r : SqlCipherReader Unit IoError}
    (h : SqlCipherReader.open C (FileSource content) config passphrase () = (.ok r, ())) :
    passphrase ≠ [] ∧ r.source = FileSource content ∧ content.length = r.fileSize ∧ r.decryptor.config = config ∧
      ∃ salt : Block, content.take 16 = salt.toList ∧ r.decryptor = ⟨config, .derive C config passphrase salt⟩ := by
  obtain ⟨hsource, hne, hsize, salt, hsalt, hdec⟩ := SqlCipherReader.open_eq_ok C h
  have hfile : content.length = r.fileSize := Except.ok.inj hsize
  have hread : (FileSource content).readExactAt 0 (List.replicate databaseSaltSize 0) () = (⟨.ok (), salt.toList⟩, ()) := hsalt
  have hsixteen : databaseSaltSize ≤ content.length := by
    have hpos := Nat.mul_le_mul_right r.pageSize r.pageCount_pos
    have hge : 1024 ≤ r.pageSize := r.decryptor.config.pageSize_ge
    have hcount : r.pageCount * r.pageSize = r.fileSize := r.fileSize_eq
    unfold databaseSaltSize
    omega
  rw [FileSource.readExactAt_eq (by rw [List.length_replicate]; omega)] at hread
  refine ⟨hne, hsource, hfile, by rw [hdec], salt, ?_, hdec⟩
  simpa [databaseSaltSize] using congrArg (·.1.buffer) hread

/-- The image a reader gives whose pages all read. -/
def Image.ofReader (r : SqlCipherReader Unit IoError) (hsource : r.source = FileSource content)
    (hlen : content.length = r.fileSize)
    (hreads : ∀ pageNo : NonZeroU32, pageNo.get ≤ r.pageCount → ∃ page, r.Reads C pageNo page) :
    Image r.decryptor.config where
  bytes := r.plaintextImage C
  pageCount := r.pageCount
  pageCount_pos := r.pageCount_pos
  pageCount_lt := r.pageCount_lt
  length_bytes := by rw [r.length_plaintextImage C, ← r.fileSize_eq]
  reserve pageNo hle := by
    obtain ⟨page, hpage⟩ := hreads pageNo hle
    have hopens := (SqlCipherReader.reads_file C hsource hlen hle).1 hpage
    have himage := r.pageOf_plaintextImage C hle
    rw [r.pageBuffer_of_reads C hpage] at himage
    exact himage ▸ (PageDecryptor.encodePage_of_openPage C _ hopens).2.1
  header := by
    have hone : NonZeroU32.min.get ≤ r.pageCount := r.pageCount_pos
    obtain ⟨page, hpage⟩ := hreads .min hone
    have hopens := (SqlCipherReader.reads_file C hsource hlen hone).1 hpage
    have himage := r.pageOf_plaintextImage C hone
    rw [r.pageBuffer_of_reads C hpage] at himage
    exact himage ▸ (PageDecryptor.encodePage_of_openPage C _ hopens).2.2.2 rfl

/-- A file whose pages all read is an encoding of what they read as. -/
theorem exists_encode {r : SqlCipherReader Unit IoError}
    (hopen : SqlCipherReader.open C (FileSource content) config passphrase () = (.ok r, ()))
    (hreads : ∀ pageNo : NonZeroU32, pageNo.get ≤ r.pageCount → ∃ page, r.Reads C pageNo page) :
    ∃ (image : Image config) (sealing : Sealing config),
      image.bytes = r.plaintextImage C ∧ image.encode C passphrase sealing = content := by
  obtain ⟨-, hsource, hlen, rfl, salt, hsalt, hdec⟩ := SqlCipherReader.open_file_eq_ok hopen
  let image := Image.ofReader r hsource hlen hreads
  have hopens : ∀ pageNo : NonZeroU32, pageNo.get ≤ r.pageCount →
      PageDecryptor.openPage C ⟨r.decryptor.config, .derive C r.decryptor.config passphrase salt⟩ pageNo
        (pageOf r.pageSize content pageNo) = .ok (image.page pageNo) := by
    intro pageNo hle
    obtain ⟨page, hpage⟩ := hreads pageNo hle
    have himage : image.page pageNo = page :=
      (r.pageOf_plaintextImage C hle).trans (r.pageBuffer_of_reads C hpage)
    rw [himage, ← hdec]
    exact (SqlCipherReader.reads_file C hsource hlen hle).1 hpage
  -- each page is sealed with some IV and filler, which are chosen page by page
  have hseal : ∀ pageNo : NonZeroU32, ∃ (iv : Block)
      (filler : Arr UInt8 (r.decryptor.config.reserveSize - 16 - r.decryptor.config.hmacAlgorithm.outputLen)),
      pageNo.get ≤ r.pageCount → encodePage C r.decryptor.config (.derive C r.decryptor.config passphrase salt) pageNo
        (image.page pageNo) salt iv filler.toList = some (pageOf r.pageSize content pageNo) := by
    intro pageNo
    by_cases hle : pageNo.get ≤ r.pageCount
    · obtain ⟨iv, filler, henc⟩ := exists_encodePage (hopens pageNo hle) fun h1 => by
        obtain rfl : pageNo = .min := NonZeroU32.ext h1
        have hge : 1024 ≤ r.pageSize := r.decryptor.config.pageSize_ge
        rw [pageOf_min, List.take_take, Nat.min_eq_left (by omega), hsalt]
      exact ⟨iv, filler, fun _ => henc⟩
    · exact ⟨.replicate 16 0, .replicate _ 0, fun h => absurd h hle⟩
  choose iv filler hseal using hseal
  refine ⟨image, ⟨salt, iv, filler⟩, rfl, ?_⟩
  have hencoded : ∀ pageNo ∈ pageNumbers r.pageCount,
      image.encodedPage C passphrase ⟨salt, iv, filler⟩ pageNo = pageOf r.pageSize content pageNo := by
    intro pageNo hmem
    unfold Image.encodedPage
    rw [hseal pageNo (mem_pageNumbers.1 hmem), Option.getD_some]
  have hwhole : r.pageCount * r.pageSize = content.length := by rw [hlen, ← r.fileSize_eq]
  unfold Image.encode
  rw [show image.pageCount = r.pageCount from rfl, List.flatMap_congr hencoded, flatMap_pageOf _ _ r.pageCount_lt, hwhole,
    List.take_length]

/-- The reader accepts exactly the encodings, and reads the image that was encoded. -/
theorem accepts_iff_encodes : Accepts C config passphrase content plain ↔ passphrase ≠ [] ∧
    ∃ (image : Image config) (sealing : Sealing config),
      image.bytes = plain ∧ image.encode C passphrase sealing = content := by
  constructor
  · rintro ⟨r, hopen, hvisit⟩
    obtain ⟨hreads, rfl⟩ := SqlCipherReader.visitPages_collect_iff.1 hvisit
    exact ⟨(SqlCipherReader.open_file_eq_ok hopen).1, exists_encode hopen hreads⟩
  · rintro ⟨hne, image, sealing, rfl, rfl⟩
    exact image.accepts_encode sealing hne

/-- A file of whole pages is accepted when every page opens under the keys of its own salt. -/
theorem accepts_iff_pages {salt : Block} {count : Nat} (hsalt : salt.toList = content.take 16)
    (hlen : content.length = count * config.pageSize) (hpos : 0 < count) (hlt : count < 2 ^ 32) :
    Accepts C config passphrase content plain ↔ passphrase ≠ [] ∧ plain.length = content.length ∧
      ∀ pageNo : NonZeroU32, pageNo.get ≤ count →
        PageDecryptor.openPage C ⟨config, .derive C config passphrase salt⟩ pageNo (pageOf config.pageSize content pageNo) =
          .ok (pageOf config.pageSize plain pageNo) := by
  by_cases hne : passphrase = []
  · constructor
    · rintro ⟨r, hopen, -⟩
      exact absurd hne (SqlCipherReader.open_file_eq_ok hopen).1
    · exact fun h => absurd hne h.1
  obtain ⟨r, hopen, hsource, hdec, hcount⟩ := SqlCipherReader.open_file C hne hlen hpos hlt hsalt
  have hps : r.pageSize = config.pageSize := congrArg PageDecryptor.pageSize hdec
  have hfile : content.length = r.fileSize := by rw [hlen, ← hcount, ← hps]; exact r.fileSize_eq
  have hreads : ∀ (pageNo : NonZeroU32) (page : Bytes), pageNo.get ≤ count → (r.Reads C pageNo page ↔
      PageDecryptor.openPage C ⟨config, .derive C config passphrase salt⟩ pageNo (pageOf config.pageSize content pageNo) =
        .ok page) := by
    intro pageNo page hle
    rw [SqlCipherReader.reads_file C hsource hfile (hcount ▸ hle), hps, hdec]
  -- the plaintext is the pages as the reader buffers them
  have hpages : ∀ pageNo : NonZeroU32, pageNo.get ≤ count →
      pageOf config.pageSize (r.plaintextImage C) pageNo = r.pageBuffer C pageNo := by
    intro pageNo hle
    rw [← hps]
    exact r.pageOf_plaintextImage C (hcount ▸ hle)
  have haccepts : Accepts C config passphrase content plain ↔ r.visitPages C collect [] = some (.ok (), plain) := by
    unfold Accepts
    rw [hopen]
    simp
  rw [haccepts, SqlCipherReader.visitPages_collect_iff, hcount]
  constructor
  · rintro ⟨hall, rfl⟩
    refine ⟨hne, by rw [r.length_plaintextImage C, hfile], fun pageNo hle => ?_⟩
    obtain ⟨page, hpage⟩ := hall pageNo hle
    rw [hpages pageNo hle, r.pageBuffer_of_reads C hpage]
    exact (hreads pageNo page hle).1 hpage
  · rintro ⟨-, hplain, hall⟩
    have hread : ∀ pageNo : NonZeroU32, pageNo.get ≤ count → r.Reads C pageNo (pageOf config.pageSize plain pageNo) :=
      fun pageNo hle => (hreads pageNo _ hle).2 (hall pageNo hle)
    refine ⟨fun pageNo hle => ⟨_, hread pageNo hle⟩, ?_⟩
    have hbuffers : ∀ pageNo ∈ pageNumbers count, r.pageBuffer C pageNo = pageOf config.pageSize plain pageNo :=
      fun pageNo hmem => r.pageBuffer_of_reads C (hread pageNo (mem_pageNumbers.1 hmem))
    unfold SqlCipherReader.plaintextImage
    rw [hcount, List.flatMap_congr hbuffers, flatMap_pageOf _ _ hlt, ← hlen, ← hplain, List.take_length]

/-- A file whose pages open one by one is accepted as these, put together. -/
theorem accepts_of_pages {salt : Block} {count : Nat} {plainPage : NonZeroU32 → Bytes} (hne : passphrase ≠ [])
    (hsalt : salt.toList = content.take 16) (hlen : content.length = count * config.pageSize) (hpos : 0 < count)
    (hlt : count < 2 ^ 32) (hopen : ∀ pageNo : NonZeroU32, pageNo.get ≤ count →
      PageDecryptor.openPage C ⟨config, .derive C config passphrase salt⟩ pageNo (pageOf config.pageSize content pageNo) =
        .ok (plainPage pageNo)) :
    Accepts C config passphrase content ((pageNumbers count).flatMap plainPage) := by
  have hplain : ∀ pageNo : NonZeroU32, pageNo.get ≤ count → (plainPage pageNo).length = config.pageSize :=
    fun pageNo hle => PageDecryptor.length_of_openPage (hopen pageNo hle)
  refine (accepts_iff_pages hsalt hlen hpos hlt).2 ⟨hne, ?_, fun pageNo hle => ?_⟩
  · rw [length_flatMap_pageNumbers hlt hplain, hlen]
  · rw [pageOf_flatMap_pageNumbers hlt hplain hle]
    exact hopen pageNo hle

/-- What an accepted file consists of. -/
theorem Accepts.whole (h : Accepts C config passphrase content plain) :
    ∃ (salt : Block) (count : Nat), salt.toList = content.take 16 ∧ content.length = count * config.pageSize ∧ 0 < count ∧
      count < 2 ^ 32 := by
  obtain ⟨r, hopen, -⟩ := h
  obtain ⟨-, -, hfile, hconfig, salt, hsalt, -⟩ := SqlCipherReader.open_file_eq_ok hopen
  exact ⟨salt, r.pageCount, hsalt.symm, by rw [hfile, ← hconfig]; exact r.fileSize_eq.symm, r.pageCount_pos, r.pageCount_lt⟩

end Format

/-! ## Two versions of a database

The database of `samplePage` with a second page, and what an update makes of it: on either page another IV, and with
it another tag. On page 1 the change counter goes from 1 to 2. The tags are the real ones under the sample's keys. -/

def updatedIv : Block :=
  ⟨[0x61, 0xfe, 0x58, 0x77, 0xe4, 0xbe, 0x62, 0xf6, 0x6a, 0x07, 0xca, 0x7b, 0x5f, 0xab, 0x42, 0xb2], rfl⟩

def updatedTag : Arr UInt8 32 :=
  ⟨[0x38, 0x79, 0xf2, 0x5d, 0x36, 0x0f, 0xb9, 0xb0, 0xf4, 0x7b, 0x5b, 0x3e, 0x6d, 0x70, 0x64, 0xd4,
    0x8e, 0x0b, 0xf5, 0xcd, 0xb2, 0x27, 0x19, 0xf8, 0xf9, 0x1a, 0xf3, 0xde, 0xe5, 0x08, 0x53, 0xbd], rfl⟩

def secondTag : Arr UInt8 32 :=
  ⟨[0x58, 0xeb, 0xd1, 0x89, 0x02, 0xaa, 0xcd, 0x40, 0x49, 0x10, 0x47, 0x46, 0xbb, 0x8a, 0xf5, 0x05,
    0xce, 0x93, 0xff, 0xb4, 0x80, 0x07, 0x20, 0x4b, 0x10, 0xba, 0xb6, 0xde, 0xe4, 0xac, 0x6e, 0xd3], rfl⟩

def updatedSecondTag : Arr UInt8 32 :=
  ⟨[0xb3, 0xa5, 0xf0, 0x8f, 0xde, 0xfc, 0x9d, 0x70, 0x7d, 0xfd, 0xcd, 0x23, 0xe0, 0xba, 0xd7, 0x88,
    0xee, 0x9d, 0x23, 0x00, 0xa5, 0x8f, 0xf2, 0xa4, 0x46, 0x1f, 0x13, 0x7a, 0x06, 0x6c, 0x07, 0x89], rfl⟩

/-- The tag of a message, by the IV and the page number at its end. -/
def versionTag (message : Bytes) : Arr UInt8 32 :=
  let trailer := message.drop (message.length - 20)
  if trailer = updatedIv.toList ++ [1, 0, 0, 0] then updatedTag
  else if trailer = sampleIv.toList ++ [2, 0, 0, 0] then secondTag
  else if trailer = updatedIv.toList ++ [2, 0, 0, 0] then updatedSecondTag
  else sampleTag

/-- Primitives that agree with the real ones on both versions. -/
def versioned : Primitives := { sample with
  hmac := fun algorithm _ message => ⟨((versionTag message).toList ++ (versionTag message).toList).take algorithm.outputLen,
    by rw [List.length_take, List.length_append, Arr.length_eq]; cases algorithm <;> rfl⟩ }

def updatedPage : Bytes :=
  sampleSalt.toList ++ (List.replicate 960 0 ++ (updatedIv.toList ++ updatedTag.toList))

def updatedPlain : Bytes :=
  sqliteHeaderMagic ++ ([0x04, 0x00, 0x02, 0x02, 0x30, 0x40, 0x20, 0x20, 0, 0, 0, 2, 0, 0, 0, 1] ++
    ((List.replicate 59 sampleBlock.toList).flatten ++ List.replicate 48 0))

def secondPage : Bytes := List.replicate 976 0 ++ (sampleIv.toList ++ secondTag.toList)

def updatedSecondPage : Bytes := List.replicate 976 0 ++ (updatedIv.toList ++ updatedSecondTag.toList)

/-- The second page of either version, its first block decrypted with the IV. -/
def secondPlain (iv : Block) : Bytes :=
  (sampleBlock.xor iv).toList ++ ((List.replicate 60 sampleBlock.toList).flatten ++ List.replicate 48 0)

set_option maxRecDepth 8000 in
theorem openPage_versioned : sampleDecryptor.openPage versioned .min samplePage = .ok samplePlain := by decide +kernel

set_option maxRecDepth 8000 in
theorem openPage_updatedPage : sampleDecryptor.openPage versioned .min updatedPage = .ok updatedPlain := by decide +kernel

/-- The update keeps the salt. -/
theorem take_updatedPage : updatedPage.take 16 = samplePage.take 16 := by decide +kernel

theorem length_updatedPage : updatedPage.length = 1024 := by
  unfold updatedPage
  simp only [List.length_append, List.length_replicate, Arr.length_eq]

end Veilite.Core

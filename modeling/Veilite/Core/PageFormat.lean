/-
The SQLCipher page format: where the parts of a page lie, what an authentic page means, and the
reference encoder. `decryptPageInPlace` never panics, fails closed, and accepts exactly the pages
the encoder produces, inverting it.
-/
import Veilite.Core.Decryptor

namespace Veilite.Core

open Buffer

/-! ## The parts of a page -/

/-- Bytes before the ciphertext of a page: page 1 starts with the salt. -/
def saltLen (pageNo : NonZeroU32) : Nat := if pageNo.get = 1 then 16 else 0

namespace CipherConfig

variable (config : CipherConfig)

def ciphertextOf (pageNo : NonZeroU32) (page : Bytes) : Bytes :=
  (page.drop (saltLen pageNo)).take (config.usable - saltLen pageNo)

def ivOf (page : Bytes) : Bytes := (page.drop config.usable).take 16

def tagOf (page : Bytes) : Bytes := (page.drop (config.usable + 16)).take config.hmacAlgorithm.outputLen

/-- The reserve bytes after the tag, which nothing authenticates. -/
def fillerOf (page : Bytes) : Bytes := page.drop (config.usable + 16 + config.hmacAlgorithm.outputLen)

end CipherConfig

theorem saltLen_one {pageNo : NonZeroU32} (h : pageNo.get = 1) : saltLen pageNo = 16 := if_pos h

theorem saltLen_ne {pageNo : NonZeroU32} (h : pageNo.get ≠ 1) : saltLen pageNo = 0 := if_neg h

theorem saltLen_le (config : CipherConfig) (pageNo : NonZeroU32) : saltLen pageNo ≤ config.usable := by
  have := config.usable_ge
  unfold saltLen; split <;> omega

theorem saltLen_dvd (pageNo : NonZeroU32) : 16 ∣ saltLen pageNo := by
  unfold saltLen; split <;> decide

/-- A page of the configured size, cut into its parts. -/
@[ext] structure PageParts (config : CipherConfig) (pageNo : NonZeroU32) where
  head : Arr UInt8 (saltLen pageNo)
  ciphertext : Arr UInt8 (config.usable - saltLen pageNo)
  iv : Block
  tag : Arr UInt8 config.hmacAlgorithm.outputLen
  filler : Arr UInt8 (config.reserveSize - 16 - config.hmacAlgorithm.outputLen)

namespace PageParts

variable {config : CipherConfig} {pageNo : NonZeroU32}

def bytes (p : PageParts config pageNo) : Bytes :=
  p.head.toList ++ (p.ciphertext.toList ++ (p.iv.toList ++ (p.tag.toList ++ p.filler.toList)))

theorem length_bytes (p : PageParts config pageNo) : p.bytes.length = config.pageSize := by
  have := saltLen_le config pageNo
  have := config.tag_fits
  have := config.usable_add_reserve
  simp [bytes]; omega

/-- The parts of a page. -/
def ofBytes (page : Bytes) (h : page.length = config.pageSize) : PageParts config pageNo :=
  have h1 := saltLen_le config pageNo
  have h2 := config.tag_fits
  have h3 := config.usable_add_reserve
  ⟨⟨page.take (saltLen pageNo), by simp; omega⟩,
    ⟨config.ciphertextOf pageNo page, by simp [CipherConfig.ciphertextOf]; omega⟩,
    ⟨config.ivOf page, by simp [CipherConfig.ivOf]; omega⟩,
    ⟨config.tagOf page, by simp [CipherConfig.tagOf]; omega⟩,
    ⟨config.fillerOf page, by simp [CipherConfig.fillerOf]; omega⟩⟩

theorem bytes_ofBytes (page : Bytes) (h : page.length = config.pageSize) :
    (ofBytes page h : PageParts config pageNo).bytes = page := by
  have h1 := saltLen_le config pageNo
  have htag : config.tagOf page ++ config.fillerOf page = page.drop (config.usable + 16) :=
    take_drop_append page _ _
  have hiv : config.ivOf page ++ page.drop (config.usable + 16) = page.drop config.usable :=
    take_drop_append page _ _
  have hct : config.ciphertextOf pageNo page ++ page.drop config.usable = page.drop (saltLen pageNo) := by
    have := take_drop_append page (saltLen pageNo) (config.usable - saltLen pageNo)
    rwa [Nat.add_sub_cancel' h1] at this
  show page.take (saltLen pageNo) ++ (config.ciphertextOf pageNo page ++ (config.ivOf page ++
    (config.tagOf page ++ config.fillerOf page))) = page
  rw [htag, hiv, hct, List.take_append_drop]

variable (p : PageParts config pageNo)

theorem ciphertextOf_bytes : config.ciphertextOf pageNo p.bytes = p.ciphertext.toList := by
  unfold CipherConfig.ciphertextOf bytes
  rw [List.drop_left' p.head.length_eq, List.take_left' p.ciphertext.length_eq]

theorem ivOf_bytes : config.ivOf p.bytes = p.iv.toList := by
  have := saltLen_le config pageNo
  unfold CipherConfig.ivOf bytes
  rw [← List.append_assoc, List.drop_left' (by simp; omega), List.take_left' p.iv.length_eq]

theorem tagOf_bytes : config.tagOf p.bytes = p.tag.toList := by
  have := saltLen_le config pageNo
  unfold CipherConfig.tagOf bytes
  rw [← List.append_assoc, ← List.append_assoc, List.drop_left' (by simp; omega),
    List.take_left' p.tag.length_eq]

theorem slice_ciphertext : slice p.bytes (saltLen pageNo) config.usable = some p.ciphertext.toList := by
  have := saltLen_le config pageNo
  exact slice_append (by simp) (by simp; omega)

theorem slice_iv : slice p.bytes config.usable (config.usable + aesBlockSize) = some p.iv.toList := by
  have := saltLen_le config pageNo
  unfold bytes
  rw [← List.append_assoc]
  exact slice_append (by simp; omega) (by simp [aesBlockSize])

theorem slice_tag : slice p.bytes (config.usable + aesBlockSize)
    (config.usable + aesBlockSize + config.hmacAlgorithm.outputLen) = some p.tag.toList := by
  have := saltLen_le config pageNo
  unfold bytes
  rw [← List.append_assoc, ← List.append_assoc]
  exact slice_append (by simp [aesBlockSize]; omega) (by simp)

/-- The plaintext takes the place of the ciphertext. -/
theorem copyFrom_ciphertext {plain : Bytes} (hlen : plain.length = p.ciphertext.toList.length) :
    copyFrom p.bytes (saltLen pageNo) config.usable plain =
      some (p.head.toList ++ (plain ++ (p.iv.toList ++ (p.tag.toList ++ p.filler.toList)))) := by
  have := saltLen_le config pageNo
  exact copyFrom_append (by simp) (by simp; omega) hlen

theorem length_reserve : (p.iv.toList ++ (p.tag.toList ++ p.filler.toList)).length = config.reserveSize := by
  have := config.tag_fits
  simp; omega

end PageParts

/-- Clearing the reserve keeps the content before it. -/
theorem CipherConfig.clear_reserve (config : CipherConfig) {content reserve : Bytes} (hc : content.length = config.usable)
    (hr : reserve.length = config.reserveSize) :
    slice (content ++ reserve) config.usable (content ++ reserve).length = some reserve ∧
      copyFrom (content ++ reserve) config.usable (content ++ reserve).length (zeroize reserve) =
        some (content ++ List.replicate config.reserveSize 0) := by
  have hslice : slice (content ++ (reserve ++ [])) config.usable (content ++ reserve).length = some reserve :=
    slice_append hc (by simp; omega)
  have hcopy : copyFrom (content ++ (reserve ++ [])) config.usable (content ++ reserve).length (zeroize reserve) =
      some (content ++ (zeroize reserve ++ [])) :=
    copyFrom_append hc (by simp; omega) (by simp)
  simp only [List.append_nil] at hslice hcopy
  exact ⟨hslice, by rw [hcopy]; simp [fill, hr]⟩

/-! ## What an authentic page holds -/

namespace PageDecryptor

variable (C : Primitives) (d : PageDecryptor)

/-- The page 1 checks on the decrypted bytes before the reserve. -/
def checkHeader (content : Bytes) : Except DecryptError Unit :=
  let sqlitePageSize := decodeSqlitePageSize (content.getD 16 0) (content.getD 17 0)
  let sqliteReserveSize := (content.getD 20 0).toNat
  if sqlitePageSize ≠ d.config.pageSize then
    .error (.invalidSqlitePageSize d.config.pageSize sqlitePageSize)
  else if sqliteReserveSize ≠ d.config.reserveSize then
    .error (.invalidSqliteReserveSize d.config.reserveSize sqliteReserveSize)
  else .ok ()

/-- The plaintext before the reserve: the magic stands for the salt on page 1. -/
def contentOf (pageNo : NonZeroU32) (ciphertext : Bytes) (iv : Block) : Bytes :=
  (if pageNo.get = 1 then sqliteHeaderMagic else []) ++
    (decryptPadded C d.keys.encryptionKey iv ciphertext).getD []

/-- The outcome of decrypting a page, as a function of its authenticated parts and their tag. -/
def openParts (pageNo : NonZeroU32) (ciphertext : Bytes) (iv : Block) (tag : Bytes) : Except DecryptError Bytes :=
  match d.verifyPageHmac C ciphertext iv.toList pageNo.get tag with
  | .error e => .error e
  | .ok () =>
    match (if pageNo.get = 1 then d.checkHeader (d.contentOf C pageNo ciphertext iv) else .ok ()) with
    | .error e => .error e
    | .ok () => .ok (d.contentOf C pageNo ciphertext iv ++ List.replicate d.config.reserveSize 0)

/-- The plaintext of a page, or why it has none. -/
def openPage (pageNo : NonZeroU32) (page : Bytes) : Except DecryptError Bytes :=
  if h : page.length = d.pageSize then
    let p : PageParts d.config pageNo := .ofBytes page h
    d.openParts C pageNo p.ciphertext.toList p.iv p.tag.toList
  else .error (.invalidPageLength d.pageSize page.length)

theorem length_contentOf {pageNo : NonZeroU32} {ciphertext : Bytes} (iv : Block)
    (h : ciphertext.length = d.config.usable - saltLen pageNo) :
    (d.contentOf C pageNo ciphertext iv).length = d.config.usable := by
  have hd : 16 ∣ ciphertext.length := by
    rw [h]; exact Nat.dvd_sub d.config.usable_dvd (saltLen_dvd pageNo)
  obtain ⟨plain, hp, hlen⟩ := Cbc.exists_decryptBytes Block.xor (C.aes256 d.keys.encryptionKey)
    (by decide) iv hd
  have := saltLen_le d.config pageNo
  unfold contentOf decryptPadded
  rw [hp, Option.getD_some, List.length_append, hlen, h]
  unfold saltLen at *
  split <;> simp_all [sqliteHeaderMagic]

/-- The header branch of the code, on the bytes before the reserve. -/
theorem restoreHeader_eq {head content rest : Bytes} (hh : head.length = 16) (hc : 5 ≤ content.length) :
    d.restoreHeader (head ++ (content ++ rest)) =
      some ⟨d.checkHeader (sqliteHeaderMagic ++ content), sqliteHeaderMagic ++ (content ++ rest)⟩ := by
  have hcopy : copyFrom (head ++ (content ++ rest)) 0 sqliteHeaderMagic.length sqliteHeaderMagic =
      some (sqliteHeaderMagic ++ (content ++ rest)) := by
    have : copyFrom ([] ++ (head ++ (content ++ rest))) 0 sqliteHeaderMagic.length sqliteHeaderMagic =
        some ([] ++ (sqliteHeaderMagic ++ (content ++ rest))) :=
      copyFrom_append rfl (by rw [hh]; rfl) (by rw [hh]; rfl)
    simpa using this
  have hget : ∀ i, i < 21 → (sqliteHeaderMagic ++ (content ++ rest))[i]? =
      some ((sqliteHeaderMagic ++ content).getD i 0) := by
    intro i hi
    have hlen : i < (sqliteHeaderMagic ++ content).length := by simp [sqliteHeaderMagic]; omega
    rw [← List.append_assoc, List.getElem?_append_left hlen, List.getD_eq_getElem?_getD,
      List.getElem?_eq_getElem hlen, Option.getD_some]
  unfold restoreHeader checkHeader
  rw [hcopy]
  simp only [Option.bind_eq_bind, Option.bind_some, hget 16 (by omega), hget 17 (by omega), hget 20 (by omega)]
  split
  · rfl
  · split <;> rfl

/-- The code on a page cut into its parts: the plaintext, or the error with some page-sized buffer. -/
theorem decryptPageInPlaceInner_bytes (pageNo : NonZeroU32) (p : PageParts d.config pageNo) :
    match d.openParts C pageNo p.ciphertext.toList p.iv p.tag.toList with
    | .ok plain => d.decryptPageInPlaceInner C pageNo p.bytes = some ⟨.ok (), plain⟩
    | .error e => ∃ buffer, buffer.length = d.pageSize ∧
        d.decryptPageInPlaceInner C pageNo p.bytes = some ⟨.error e, buffer⟩ := by
  have hs := saltLen_le d.config pageNo
  have huse := d.config.usable_add_reserve
  have hoff : (if pageNo.get = 1 then 16 else 0) = saltLen pageNo := rfl
  have hend : saltLen pageNo + (d.config.usable - saltLen pageNo) = d.config.usable := by omega
  have hdvd : 16 ∣ p.ciphertext.toList.length := by
    rw [p.ciphertext.length_eq]
    exact Nat.dvd_sub d.config.usable_dvd (saltLen_dvd pageNo)
  -- the ciphertext is whole blocks
  obtain ⟨plain, hplain, hlen⟩ := Cbc.exists_decryptBytes Block.xor (C.aes256 d.keys.encryptionKey)
    (by decide) p.iv hdvd
  have hcontent : d.contentOf C pageNo p.ciphertext.toList p.iv =
      (if pageNo.get = 1 then sqliteHeaderMagic else []) ++ plain := by
    unfold contentOf decryptPadded; rw [hplain, Option.getD_some]
  have hclen := d.length_contentOf C p.iv p.ciphertext.length_eq
  unfold openParts decryptPageInPlaceInner
  simp only [Option.bind_eq_bind, d.config.usableEnd_eq, Option.bind_some, hoff, sub_eq_some hs, hend, p.slice_ciphertext,
    p.slice_iv, p.slice_tag, Arr.ofList_toList, decryptPadded, hplain, p.copyFrom_ciphertext hlen]
  rcases hv : d.verifyPageHmac C p.ciphertext.toList p.iv.toList pageNo.get p.tag.toList with e | _
  · exact ⟨p.bytes, p.length_bytes, rfl⟩
  by_cases h1 : pageNo.get = 1
  · -- on page 1 the magic takes the place of the salt
    have h16 : p.head.toList.length = 16 := p.head.length_eq.trans (saltLen_one h1)
    have hplen : plain.length + 16 = d.config.usable := by
      rw [hlen, p.ciphertext.length_eq, ← h16, p.head.length_eq]; omega
    have := d.config.usable_ge
    simp only [if_pos h1, Option.bind_some, d.restoreHeader_eq h16 (show 5 ≤ plain.length by omega)]
    rw [if_pos h1] at hcontent
    rw [hcontent]
    cases d.checkHeader (sqliteHeaderMagic ++ plain) with
    | error e =>
      refine ⟨_, ?_, rfl⟩
      show _ = d.config.pageSize
      rw [← List.append_assoc, List.length_append, ← hcontent, hclen, p.length_reserve, huse]
    | ok _ =>
      obtain ⟨hslice, hcopy⟩ := d.config.clear_reserve (hcontent ▸ hclen) p.length_reserve
      simp only [← List.append_assoc] at hslice hcopy ⊢
      simp only [hslice, hcopy, Option.bind_some]
      rfl
  · have hnil : p.head.toList = [] := List.length_eq_zero_iff.1 (p.head.length_eq.trans (saltLen_ne h1))
    rw [if_neg h1, List.nil_append] at hcontent
    simp only [if_neg h1, hnil, List.nil_append]
    rw [hcontent]
    obtain ⟨hslice, hcopy⟩ := d.config.clear_reserve (hcontent ▸ hclen) p.length_reserve
    simp only [hslice, hcopy, Option.bind_some]
    rfl

/-- Decrypting a page never panics, and leaves its plaintext or a cleared buffer with the error. -/
theorem decryptPageInPlace_eq (pageNo : NonZeroU32) (page : Bytes) :
    d.decryptPageInPlace C pageNo page = some (.closed page.length 0 (d.openPage C pageNo page)) := by
  unfold decryptPageInPlace openPage
  by_cases h : page.length = d.pageSize
  · rw [if_neg (by simpa using h), dif_pos h]
    have := d.decryptPageInPlaceInner_bytes C pageNo (.ofBytes page h)
    rw [PageParts.bytes_ofBytes] at this
    cases hp : d.openParts C pageNo (PageParts.ofBytes page h).ciphertext.toList (PageParts.ofBytes page h).iv
        (PageParts.ofBytes page h).tag.toList with
    | ok plain =>
      rw [hp] at this
      rw [this]; rfl
    | error e =>
      rw [hp] at this
      obtain ⟨buffer, hb, hi⟩ := this
      rw [hi, h, ← hb]; rfl
  · rw [if_pos h, dif_neg h]; rfl

/-! ## The reference encoder -/

theorem verifyPageHmac_eq_ok_iff {ciphertext iv tag : Bytes} {pageNumber : Nat} :
    d.verifyPageHmac C ciphertext iv pageNumber tag = .ok () ↔
      (C.hmac d.config.hmacAlgorithm d.keys.hmacKey (macInput ciphertext iv pageNumber)).toList = tag := by
  unfold verifyPageHmac
  split <;> simp_all

theorem checkHeader_eq_ok_iff {content : Bytes} :
    d.checkHeader content = .ok () ↔
      decodeSqlitePageSize (content.getD 16 0) (content.getD 17 0) = d.config.pageSize ∧
        (content.getD 20 0).toNat = d.config.reserveSize := by
  unfold checkHeader
  simp only
  split
  · simp_all
  · split <;> simp_all

/-- A page opens exactly when its tag is right and, on page 1, its header is. -/
theorem openParts_eq_ok_iff {pageNo : NonZeroU32} {ciphertext : Bytes} {iv : Block} {tag plain : Bytes} :
    d.openParts C pageNo ciphertext iv tag = .ok plain ↔
      d.verifyPageHmac C ciphertext iv.toList pageNo.get tag = .ok () ∧
      (pageNo.get = 1 → d.checkHeader (d.contentOf C pageNo ciphertext iv) = .ok ()) ∧
      plain = d.contentOf C pageNo ciphertext iv ++ List.replicate d.config.reserveSize 0 := by
  unfold openParts
  rcases d.verifyPageHmac C ciphertext iv.toList pageNo.get tag with e | _
  · simp
  by_cases h1 : pageNo.get = 1
  · simp only [if_pos h1]
    cases d.checkHeader (d.contentOf C pageNo ciphertext iv) <;> simp [h1, eq_comm]
  · simp [h1, eq_comm]

theorem openPage_bytes (pageNo : NonZeroU32) (p : PageParts d.config pageNo) :
    d.openPage C pageNo p.bytes = d.openParts C pageNo p.ciphertext.toList p.iv p.tag.toList := by
  have hparts : ∀ q : PageParts d.config pageNo, q.bytes = p.bytes →
      q.ciphertext = p.ciphertext ∧ q.iv = p.iv ∧ q.tag = p.tag := by
    intro q hq
    have h1 := q.ciphertextOf_bytes
    have h2 := q.ivOf_bytes
    have h3 := q.tagOf_bytes
    rw [hq, p.ciphertextOf_bytes] at h1
    rw [hq, p.ivOf_bytes] at h2
    rw [hq, p.tagOf_bytes] at h3
    exact ⟨Arr.ext h1.symm, Arr.ext h2.symm, Arr.ext h3.symm⟩
  obtain ⟨h1, h2, h3⟩ := hparts (.ofBytes p.bytes p.length_bytes) (PageParts.bytes_ofBytes _ _)
  unfold openPage
  rw [dif_pos p.length_bytes]
  simp only [h1, h2, h3]

end PageDecryptor

/-- The reference page encoder: on page 1 the salt, then the AES-256-CBC ciphertext of the plaintext
between the salt and the reserve, the IV, the tag over both and the page number, and the filler. -/
def encodePage (C : Primitives) (config : CipherConfig) (keys : KeyMaterial) (pageNo : NonZeroU32) (plain : Bytes)
    (salt iv : Block) (filler : Bytes) : Option Bytes := do
  let c0 := saltLen pageNo
  let ciphertext ← Cbc.encryptBytes Block.xor (C.aes256 keys.encryptionKey) iv ((plain.drop c0).take (config.usable - c0))
  let tag := C.hmac config.hmacAlgorithm keys.hmacKey (ciphertext ++ iv.toList ++ le32 pageNo.get)
  return (if pageNo.get = 1 then salt.toList else []) ++ (ciphertext ++ (iv.toList ++ (tag.toList ++ filler)))

namespace PageDecryptor

variable (C : Primitives) (d : PageDecryptor)

/-- The header a first page must have: the magic, the page size and the reserve size. -/
structure HeaderMatches (config : CipherConfig) (plain : Bytes) : Prop where
  magic : sqliteHeaderMagic <+: plain
  pageSize : decodeSqlitePageSize (plain.getD 16 0) (plain.getD 17 0) = config.pageSize
  reserveSize : (plain.getD 20 0).toNat = config.reserveSize

theorem cbc_iff {key : Key} {iv : Block} {plain ciphertext : Bytes} :
    Cbc.encryptBytes Block.xor (C.aes256 key) iv plain = some ciphertext ↔
      decryptPadded C key iv ciphertext = some plain :=
  Cbc.encryptBytes_eq_some_iff (C.aes256 key) (by decide) Block.xor_xor iv

/-- The bytes of a plaintext the ciphertext encodes, and the header bytes, do not reach the reserve. -/
theorem getD_content {content rest : Bytes} {i : Nat} (h : i < content.length) :
    (content ++ rest).getD i 0 = content.getD i 0 := by
  rw [List.getD_eq_getElem?_getD, List.getD_eq_getElem?_getD, List.getElem?_append_left h]

/-- The magic in place of the salt, then what the ciphertext encodes, is the plaintext before the reserve. -/
theorem magic_append_mid {pageNo : NonZeroU32} {plain : Bytes} (hmagic : pageNo.get = 1 → sqliteHeaderMagic <+: plain) :
    (if pageNo.get = 1 then sqliteHeaderMagic else []) ++
      (plain.drop (saltLen pageNo)).take (d.config.usable - saltLen pageNo) = plain.take d.config.usable := by
  have hs := saltLen_le d.config pageNo
  by_cases h1 : pageNo.get = 1
  · have h16 : saltLen pageNo = sqliteHeaderMagic.length := saltLen_one h1
    have hpre : sqliteHeaderMagic = plain.take (saltLen pageNo) := by
      rw [h16]; exact List.prefix_iff_eq_take.1 (hmagic h1)
    rw [if_pos h1, hpre, ← List.take_add, Nat.add_sub_cancel' hs]
  · rw [if_neg h1, saltLen_ne h1, List.drop_zero, Nat.sub_zero, List.nil_append]

/-- An encoded page opens to its plaintext. -/
theorem openPage_encodePage {pageNo : NonZeroU32} {page plain filler : Bytes} {salt iv : Block}
    (henc : encodePage C d.config d.keys pageNo plain salt iv filler = some page)
    (hlen : page.length = d.config.pageSize)
    (hres : plain.drop d.config.usable = List.replicate d.config.reserveSize 0)
    (hhead : pageNo.get = 1 → HeaderMatches d.config plain) :
    d.openPage C pageNo page = .ok plain := by
  have hs := saltLen_le d.config pageNo
  have huse := d.config.usable_add_reserve
  have htag := d.config.tag_fits
  have hrpos := d.config.reserveSize_eq
  have hplen : plain.length = d.config.pageSize := by
    have := congrArg List.length hres
    rw [List.length_drop, List.length_replicate] at this
    omega
  unfold encodePage at henc
  rw [Option.bind_eq_bind, Option.bind_eq_some_iff] at henc
  obtain ⟨ciphertext, hct, henc⟩ := henc
  have hdec := (cbc_iff C).1 hct
  have hclen : ciphertext.length = d.config.usable - saltLen pageNo := by
    have := Cbc.length_decryptBytes _ hdec
    simp only [List.length_take, List.length_drop] at this
    omega
  -- the encoded page cut into its parts
  have hhl : (if pageNo.get = 1 then salt.toList else []).length = saltLen pageNo := by
    unfold saltLen; split <;> simp
  simp only [Option.pure_def, Option.some.injEq] at henc
  subst henc
  have hfl : filler.length = d.config.reserveSize - 16 - d.config.hmacAlgorithm.outputLen := by
    simp only [List.length_append, hhl, hclen, Arr.length_eq] at hlen
    omega
  let p : PageParts d.config pageNo := ⟨⟨_, hhl⟩, ⟨ciphertext, hclen⟩, iv,
    C.hmac d.config.hmacAlgorithm d.keys.hmacKey (macInput ciphertext iv.toList pageNo.get), ⟨filler, hfl⟩⟩
  have hcontent : d.contentOf C pageNo ciphertext iv = plain.take d.config.usable := by
    unfold contentOf
    rw [hdec, Option.getD_some]
    exact d.magic_append_mid fun h1 => (hhead h1).magic
  have hsplit : plain = plain.take d.config.usable ++ List.replicate d.config.reserveSize 0 := by
    rw [← hres, List.take_append_drop]
  refine (d.openPage_bytes C pageNo p).trans ((d.openParts_eq_ok_iff C).2 ⟨?_, fun h1 => ?_, ?_⟩)
  · exact (d.verifyPageHmac_eq_ok_iff C).2 rfl
  · obtain ⟨-, hps, hrs⟩ := hhead h1
    have huse := d.config.usable_ge
    have htake : (plain.take d.config.usable).length = d.config.usable := by simp; omega
    rw [hsplit, getD_content (by omega), getD_content (by omega)] at hps
    rw [hsplit, getD_content (by omega)] at hrs
    rw [hcontent]
    exact (d.checkHeader_eq_ok_iff).2 ⟨hps, hrs⟩
  · rw [hcontent]; exact hsplit

/-- A page that opens is the encoding of its plaintext, whose reserve is zero and whose header matches. -/
theorem encodePage_of_openPage {pageNo : NonZeroU32} {page plain : Bytes} (h : d.openPage C pageNo page = .ok plain) :
    page.length = d.config.pageSize ∧
    plain.drop d.config.usable = List.replicate d.config.reserveSize 0 ∧
    (∃ salt iv filler, encodePage C d.config d.keys pageNo plain salt iv filler = some page) ∧
    (pageNo.get = 1 → HeaderMatches d.config plain) := by
  have hs := saltLen_le d.config pageNo
  have huse := d.config.usable_ge
  have hlen : page.length = d.config.pageSize := by
    by_contra hne
    unfold openPage at h
    rw [dif_neg hne] at h
    cases h
  obtain ⟨p, rfl⟩ : ∃ p : PageParts d.config pageNo, p.bytes = page := ⟨.ofBytes page hlen, PageParts.bytes_ofBytes _ _⟩
  rw [d.openPage_bytes C, d.openParts_eq_ok_iff C] at h
  obtain ⟨hmac, hhdr, rfl⟩ := h
  have hclen := d.length_contentOf C p.iv p.ciphertext.length_eq
  have hdvd : 16 ∣ p.ciphertext.toList.length := by
    rw [p.ciphertext.length_eq]
    exact Nat.dvd_sub d.config.usable_dvd (saltLen_dvd pageNo)
  obtain ⟨mid, hmid, hml⟩ := Cbc.exists_decryptBytes Block.xor (C.aes256 d.keys.encryptionKey)
    (by decide) p.iv hdvd
  have hcontent : d.contentOf C pageNo p.ciphertext.toList p.iv =
      (if pageNo.get = 1 then sqliteHeaderMagic else []) ++ mid := by
    unfold contentOf decryptPadded; rw [hmid, Option.getD_some]
  -- the bytes the ciphertext encodes are found again in the plaintext
  have hfind : ((d.contentOf C pageNo p.ciphertext.toList p.iv ++ List.replicate d.config.reserveSize 0).drop
      (saltLen pageNo)).take (d.config.usable - saltLen pageNo) = mid := by
    rw [hcontent, List.append_assoc, List.drop_left' (by unfold saltLen; split <;> simp_all [sqliteHeaderMagic]),
      List.take_left' (by rw [hml, p.ciphertext.length_eq])]
  refine ⟨hlen, List.drop_left' hclen, ?_, fun h1 => ?_⟩
  · refine ⟨if h1 : pageNo.get = 1 then ⟨p.head.toList, by rw [p.head.length_eq, saltLen_one h1]⟩ else .replicate 16 0,
      p.iv, p.filler.toList, ?_⟩
    have henc : Cbc.encryptBytes Block.xor (C.aes256 d.keys.encryptionKey) p.iv mid = some p.ciphertext.toList :=
      (cbc_iff C).2 hmid
    unfold encodePage
    simp only [hfind, henc, Option.bind_eq_bind, Option.bind_some, Option.pure_def, Option.some.injEq]
    have htag := (d.verifyPageHmac_eq_ok_iff C).1 hmac
    unfold macInput at htag
    rw [htag]
    unfold PageParts.bytes
    congr 1
    by_cases h1 : pageNo.get = 1
    · rw [if_pos h1, dif_pos h1]
    · rw [if_neg h1, List.length_eq_zero_iff.1 (p.head.length_eq.trans (saltLen_ne h1))]
  · obtain ⟨hps, hrs⟩ := (d.checkHeader_eq_ok_iff).1 (hhdr h1)
    refine ⟨?_, by rw [getD_content (by omega), getD_content (by omega)]; exact hps,
      by rw [getD_content (by omega)]; exact hrs⟩
    rw [hcontent, if_pos h1, List.append_assoc]
    exact List.prefix_append _ _

/-- The decryptor accepts exactly the pages the reference encoder produces from a plaintext with a zero
reserve and, on page 1, a matching header, and gives that plaintext back. -/
theorem decryptPageInPlace_eq_ok_iff (pageNo : NonZeroU32) (page plain : Bytes) :
    d.decryptPageInPlace C pageNo page = some ⟨.ok (), plain⟩ ↔
      page.length = d.config.pageSize ∧
      plain.drop d.config.usable = List.replicate d.config.reserveSize 0 ∧
      (∃ salt iv filler, encodePage C d.config d.keys pageNo plain salt iv filler = some page) ∧
      (pageNo.get = 1 → HeaderMatches d.config plain) := by
  rw [d.decryptPageInPlace_eq C, Option.some.injEq, Filled.closed_eq_ok_iff]
  constructor
  · exact d.encodePage_of_openPage C
  · rintro ⟨hlen, hres, ⟨salt, iv, filler, henc⟩, hhead⟩
    exact d.openPage_encodePage C henc hlen hres hhead

end PageDecryptor

/-! ## A one-page database

The keys, the block cipher's value, the tag and the identity below are the real ones for the passphrase
`passphrase`, sixteen salt bytes 0x42, one SHA-256 iteration and 1024-byte pages, on the one page
`samplePage`: its ciphertext blocks are all zero and its header declares write-ahead logging. -/

def sampleConfig : CipherConfig := ⟨1024, 1, .sha256, .sha256, by decide, by decide⟩

def samplePassphrase : Bytes := [0x70, 0x61, 0x73, 0x73, 0x70, 0x68, 0x72, 0x61, 0x73, 0x65]

def sampleSalt : Block := .replicate 16 0x42

def sampleKeys : KeyMaterial where
  encryptionKey := ⟨[0xff, 0xa2, 0x89, 0x6d, 0x16, 0xb1, 0x8a, 0x92, 0x9e, 0x34, 0xe6, 0x52, 0xd9, 0xc2, 0x3b, 0x52,
    0xeb, 0x93, 0x08, 0xbe, 0x30, 0xdd, 0x4a, 0x41, 0xdc, 0x57, 0xeb, 0xf8, 0x69, 0xf5, 0x53, 0xa7], rfl⟩
  hmacKey := ⟨[0xc5, 0x78, 0x1c, 0xa2, 0xb2, 0x28, 0xae, 0x82, 0xb5, 0xfc, 0x0f, 0xb0, 0xd0, 0x04, 0x5f, 0xd6,
    0x8e, 0x05, 0xde, 0x08, 0x3c, 0x78, 0xfc, 0x2e, 0x12, 0x97, 0x77, 0xc3, 0x54, 0x52, 0xfb, 0x88], rfl⟩

/-- The block AES-256 decrypts the zero block to under the sample key. -/
def sampleBlock : Block :=
  ⟨[0x65, 0xfe, 0x5a, 0x75, 0xd4, 0xfe, 0x42, 0xd6, 0x6a, 0x07, 0xca, 0x79, 0x5f, 0xab, 0x42, 0xb3], rfl⟩

def sampleIv : Block :=
  ⟨[0x61, 0xfe, 0x58, 0x77, 0xe4, 0xbe, 0x62, 0xf6, 0x6a, 0x07, 0xca, 0x78, 0x5f, 0xab, 0x42, 0xb2], rfl⟩

def sampleTag : Arr UInt8 32 :=
  ⟨[0x2d, 0xb3, 0x2e, 0xc3, 0xa0, 0x75, 0x40, 0x3b, 0xc2, 0x0e, 0x08, 0x06, 0xb7, 0xdd, 0xa6, 0x82,
    0x41, 0x6c, 0xf4, 0xad, 0xec, 0xcf, 0xa3, 0x6b, 0x27, 0x89, 0xef, 0x5b, 0x00, 0xfa, 0x2d, 0x80], rfl⟩

/-- The SHA-256 digest of the sample database's codec identity when it is opened with a WAL at `/db`. -/
def sampleDigest : Arr UInt8 32 :=
  ⟨[0xf5, 0xc5, 0x44, 0x41, 0x37, 0x4c, 0x74, 0x9b, 0x54, 0x0a, 0x5c, 0x91, 0xcb, 0xfc, 0x71, 0x32,
    0xf7, 0xb3, 0x40, 0xbd, 0x1e, 0x53, 0x06, 0xd5, 0xa8, 0x72, 0x2b, 0xea, 0x1b, 0x7e, 0x01, 0x8b], rfl⟩

/-- Primitives that agree with the real ones on the sample database. -/
def sample : Primitives where
  aes256 _ := Equiv.swap (.replicate 16 0) sampleBlock
  hmac algorithm _ _ := ⟨(sampleTag.toList ++ sampleTag.toList).take algorithm.outputLen,
    by cases algorithm <;> decide⟩
  pbkdf2Hmac _ password _ _ :=
    if password = samplePassphrase then sampleKeys.encryptionKey else sampleKeys.hmacKey
  sha256 _ := sampleDigest

def sampleDecryptor : PageDecryptor := ⟨sampleConfig, sampleKeys⟩

def samplePage : Bytes :=
  sampleSalt.toList ++ (List.replicate 960 0 ++ (sampleIv.toList ++ (sampleTag.toList ++ [])))

def samplePlain : Bytes :=
  sqliteHeaderMagic ++ ([0x04, 0x00, 0x02, 0x02, 0x30, 0x40, 0x20, 0x20, 0, 0, 0, 1, 0, 0, 0, 1] ++
    ((List.replicate 59 sampleBlock.toList).flatten ++ List.replicate 48 0))

set_option maxRecDepth 8000 in
theorem openPage_samplePage : sampleDecryptor.openPage sample .min samplePage = .ok samplePlain := by
  decide +kernel

end Veilite.Core

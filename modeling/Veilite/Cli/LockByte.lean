/-
Databases that reach past SQLite's lock-byte page. SQLite never writes that page, so SQLCipher never encrypts
it and it is a hole in the file; `verify` and `export` ask for the authentication of every page of the file,
so they accept such a database only if the zero page happens to have a zero tag.
-/
import Veilite.Cli.Agreement
import Veilite.Core.Authenticity

namespace Veilite.Cli

open Buffer Veilite.Core Traverse Turso PageDecryptor

/-! ## Databases with a hole -/

section Database

variable (C : Primitives) (config : CipherConfig) (passphrase : Bytes) (salt : Block)

/-- The page of SQLite's lock bytes, at 2^30. -/
def lockBytePage : Nat := 2 ^ 30 / config.pageSize + 1

/-- A plaintext page as it reads back, its reserve cleared. -/
def clearReserve (plain : Bytes) : Bytes := plain.take config.usable ++ List.replicate config.reserveSize 0

/-- A file of `count` pages as SQLCipher writes it: its pages encrypt the pages `plain` under the keys of the
passphrase and the salt, and the lock-byte page is a hole. -/
structure Database (count : Nat) (plain : NonZeroU32 → Bytes) (content : Bytes) : Prop where
  length : content.length = count * config.pageSize
  page : ∀ pageNo : NonZeroU32, pageNo.get ≤ count → pageNo.get ≠ lockBytePage config →
    (plain pageNo).length = config.pageSize ∧
      ∃ head iv filler, encodePage C config (.derive C config passphrase salt) pageNo (plain pageNo) head iv filler =
        some (pageOf config.pageSize content pageNo)
  header : HeaderMatches config (plain .min)
  hole : ∀ pageNo : NonZeroU32, pageNo.get ≤ count → pageNo.get = lockBytePage config →
    pageOf config.pageSize content pageNo = List.replicate config.pageSize 0
  salt_eq : salt.toList = content.take 16

/-- The tag of the zero page in the lock-byte page's place is zero. -/
def ZeroTag : Prop :=
  (C.hmac config.hmacAlgorithm (KeyMaterial.derive C config passphrase salt).hmacKey
      (List.replicate config.usable 0 ++ List.replicate 16 0 ++ le32 (lockBytePage config))).toList =
    List.replicate config.hmacAlgorithm.outputLen 0

theorem lockBytePage_gt : 1 < lockBytePage config := by
  have hdiv : 2 ^ 30 / 65536 ≤ 2 ^ 30 / config.pageSize := Nat.div_le_div_left config.pageSize_le config.pageSize_pos
  unfold lockBytePage
  omega

theorem lockBytePage_lt : lockBytePage config < 2 ^ 32 := by
  have hdiv : 2 ^ 30 / config.pageSize ≤ 2 ^ 30 := Nat.div_le_self ..
  unfold lockBytePage
  omega

def lockByte : NonZeroU32 := ⟨lockBytePage config, Nat.lt_trans Nat.zero_lt_one (lockBytePage_gt config), lockBytePage_lt config⟩

/-- The zero page opens in the lock-byte page's place exactly when its tag there is zero. -/
theorem openPage_hole_iff :
    (∃ plain, openPage C ⟨config, .derive C config passphrase salt⟩ (lockByte config) (List.replicate config.pageSize 0) =
      .ok plain) ↔ ZeroTag C config passphrase salt := by
  have hne : (lockByte config).get ≠ 1 := Nat.ne_of_gt (lockBytePage_gt config)
  have huse := config.usable_add_reserve
  have htag := config.tag_fits
  have hct : config.ciphertextOf (lockByte config) (List.replicate config.pageSize 0) = List.replicate config.usable 0 := by
    unfold CipherConfig.ciphertextOf
    rw [saltLen_ne hne, List.drop_zero, Nat.sub_zero, List.take_replicate, Nat.min_eq_left (by omega)]
  have hiv : config.ivOf (List.replicate config.pageSize 0) = List.replicate 16 0 := by
    unfold CipherConfig.ivOf
    rw [List.drop_replicate, List.take_replicate, Nat.min_eq_left (by omega)]
  have htagOf : config.tagOf (List.replicate config.pageSize 0) = List.replicate config.hmacAlgorithm.outputLen 0 := by
    unfold CipherConfig.tagOf
    rw [List.drop_replicate, List.take_replicate, Nat.min_eq_left (by omega)]
  rw [openPage_ok_iff_authentic hne]
  unfold Authentic
  rw [verifyPageHmac_eq_ok_iff, hct, hiv, htagOf]
  exact and_iff_right List.length_replicate

/-- Else it is taken for a page that does not authenticate. -/
theorem openPage_hole_error (h : ¬ ZeroTag C config passphrase salt) :
    openPage C ⟨config, .derive C config passphrase salt⟩ (lockByte config) (List.replicate config.pageSize 0) =
      .error (.authenticationFailed (lockBytePage config)) := by
  have hne : (lockByte config).get ≠ 1 := Nat.ne_of_gt (lockBytePage_gt config)
  refine openPage_of_not_authentic List.length_replicate fun hauth => h ?_
  exact (openPage_hole_iff C config passphrase salt).1 ((openPage_ok_iff_authentic hne).2 hauth)

end Database

namespace Database

variable {C : Primitives} {config : CipherConfig} {passphrase : Bytes} {salt : Block} {count : Nat}
  {plain : NonZeroU32 → Bytes} {content : Bytes}

theorem encodePage_clearReserve {keys : KeyMaterial} {pageNo : NonZeroU32} {plain : Bytes} (hlen : plain.length = config.pageSize)
    (head iv : Block) (filler : Bytes) : encodePage C config keys pageNo (clearReserve config plain) head iv filler =
      encodePage C config keys pageNo plain head iv filler := by
  have hs := saltLen_le config pageNo
  have huse := config.usable_add_reserve
  -- the encoder does not look at the reserve
  have hcontent : ((clearReserve config plain).drop (saltLen pageNo)).take (config.usable - saltLen pageNo) =
      (plain.drop (saltLen pageNo)).take (config.usable - saltLen pageNo) := by
    unfold clearReserve
    rw [List.drop_append_of_le_length (by rw [List.length_take]; omega), List.drop_take,
      List.take_left' (by rw [List.length_take, List.length_drop]; omega)]
  unfold encodePage
  simp only [hcontent]

theorem headerMatches_clearReserve {plain : Bytes} (hlen : plain.length = config.pageSize) (h : HeaderMatches config plain) :
    HeaderMatches config (clearReserve config plain) := by
  have huse := config.usable_ge
  have hres := config.usable_add_reserve
  have hsame : ∀ i, i < config.usable → (clearReserve config plain).getD i 0 = plain.getD i 0 := by
    intro i hi
    unfold clearReserve
    rw [getD_content (by rw [List.length_take]; omega), ← getD_content (by rw [List.length_take]; omega),
      List.take_append_drop]
  refine ⟨?_, ?_, ?_⟩
  · have hmagic : sqliteHeaderMagic <+: plain.take config.usable :=
      List.prefix_take_iff.2 ⟨h.magic, by simp only [sqliteHeaderMagic, List.length_cons, List.length_nil]; omega⟩
    exact hmagic.trans (List.prefix_append _ _)
  · rw [hsame 16 (by omega), hsame 17 (by omega)]
    exact h.pageSize
  · rw [hsame 20 (by omega)]
    exact h.reserveSize

/-- An encrypted page opens to its plaintext, the reserve cleared. -/
theorem openPage (h : Database C config passphrase salt count plain content) {pageNo : NonZeroU32}
    (hle : pageNo.get ≤ count) (hne : pageNo.get ≠ lockBytePage config) :
    PageDecryptor.openPage C ⟨config, .derive C config passphrase salt⟩ pageNo (pageOf config.pageSize content pageNo) =
      .ok (clearReserve config (plain pageNo)) := by
  obtain ⟨hplain, head, iv, filler, henc⟩ := h.page pageNo hle hne
  have huse := config.usable_add_reserve
  rw [← encodePage_clearReserve hplain] at henc
  have hlen : (pageOf config.pageSize content pageNo).length = config.pageSize :=
    length_pageOf (h.length ▸ Nat.mul_le_mul_right config.pageSize hle)
  refine openPage_encodePage C ⟨config, .derive C config passphrase salt⟩ henc hlen ?_ fun h1 => ?_
  · show (clearReserve config (plain pageNo)).drop config.usable = List.replicate config.reserveSize 0
    exact List.drop_left' (by rw [List.length_take]; omega)
  · obtain rfl : pageNo = .min := NonZeroU32.ext h1
    exact headerMatches_clearReserve hplain h.header

/-- Each page opens exactly when the database ends before the lock-byte page or the hole opens. -/
theorem opens_iff (h : Database C config passphrase salt count plain content) :
    (∀ pageNo : NonZeroU32, pageNo.get ≤ count → ∃ bytes, PageDecryptor.openPage C ⟨config, .derive C config passphrase salt⟩
        pageNo (pageOf config.pageSize content pageNo) = .ok bytes) ↔
      count < lockBytePage config ∨ ZeroTag C config passphrase salt := by
  constructor
  · intro hall
    refine (Nat.lt_or_ge count (lockBytePage config)).imp_right fun hge => ?_
    obtain ⟨bytes, hbytes⟩ := hall (lockByte config) hge
    rw [h.hole (lockByte config) hge rfl] at hbytes
    exact (openPage_hole_iff C config passphrase salt).1 ⟨bytes, hbytes⟩
  · intro hcond pageNo hle
    by_cases hne : pageNo.get = lockBytePage config
    · rcases hcond with hlt | hzero
      · omega
      · obtain rfl : pageNo = lockByte config := NonZeroU32.ext hne
        rw [h.hole _ hle rfl]
        exact (openPage_hole_iff C config passphrase salt).2 hzero
    · exact ⟨_, h.openPage hle hne⟩

/-- The database of pages that open, but for the hole. -/
theorem of_pages {page : NonZeroU32 → Bytes} (hpos : 0 < count) (hlt : count < 2 ^ 32)
    (hopen : ∀ pageNo : NonZeroU32, pageNo.get ≤ count → pageNo.get ≠ lockBytePage config →
      PageDecryptor.openPage C ⟨config, .derive C config passphrase salt⟩ pageNo (page pageNo) = .ok (plain pageNo))
    (hhole : ∀ pageNo : NonZeroU32, pageNo.get ≤ count → pageNo.get = lockBytePage config →
      page pageNo = List.replicate config.pageSize 0) (hsalt : salt.toList = (page .min).take 16) :
    Database C config passphrase salt count plain ((pageNumbers count).flatMap page) := by
  have hpage : ∀ pageNo : NonZeroU32, pageNo.get ≤ count → (page pageNo).length = config.pageSize := by
    intro pageNo hle
    by_cases hne : pageNo.get = lockBytePage config
    · rw [hhole pageNo hle hne, List.length_replicate]
    · exact (encodePage_of_openPage C _ (hopen pageNo hle hne)).1
  have hone : NonZeroU32.min.get ≠ lockBytePage config := Nat.ne_of_lt (lockBytePage_gt config)
  have hmin : NonZeroU32.min.get ≤ count := hpos
  have hpageOf : ∀ {pageNo : NonZeroU32}, pageNo.get ≤ count →
      pageOf config.pageSize ((pageNumbers count).flatMap page) pageNo = page pageNo :=
    fun hle => pageOf_flatMap_pageNumbers hlt hpage hle
  refine ⟨length_flatMap_pageNumbers hlt hpage, fun pageNo hle hne => ?_, ?_, fun pageNo hle hne => ?_, ?_⟩
  · obtain ⟨-, -, henc, -⟩ := encodePage_of_openPage C _ (hopen pageNo hle hne)
    rw [hpageOf hle]
    exact ⟨length_of_openPage (hopen pageNo hle hne), henc⟩
  · exact (encodePage_of_openPage C _ (hopen .min hmin hone)).2.2.2 rfl
  · rw [hpageOf hle, hhole pageNo hle hne]
  · have hsize := config.pageSize_ge
    rw [hsalt, ← hpageOf hmin, pageOf_min, List.take_take, Nat.min_eq_left (by omega)]

end Database

/-! ## Acceptance -/

section Acceptance

variable (C : Primitives) {world : World} {cipher : CipherArgs} {passphraseFile : Option Path} {inputPath : Path}
  {config : CipherConfig} {passphrase content : Bytes} {salt : Block} {count : Nat} {plain : NonZeroU32 → Bytes}

/-- An undisturbed run opens the database, and each page is what the page of the file opens to. -/
theorem Database.openReader (hrun : Undisturbed world cipher passphraseFile inputPath config passphrase content)
    (hdb : Database C config passphrase salt count plain content) (hpos : 0 < count) (hlt : count < 2 ^ 32)
    (hne : passphrase ≠ []) :
    ∃ reader, Cli.openReader C world inputPath cipher passphraseFile = .ok reader ∧ reader.pageCount = count ∧
      reader.pageSize = config.pageSize ∧ ∀ pageNo : NonZeroU32, pageNo.get ≤ count → (reader.fetchPage C pageNo ()).1 =
        (PageDecryptor.openPage C ⟨config, .derive C config passphrase salt⟩ pageNo
          (pageOf config.pageSize content pageNo)).mapError .decrypt := by
  obtain ⟨reader, hopen, hsource, hdec, hcount⟩ := hrun.openReader C hne hdb.length hpos hlt hdb.salt_eq
  refine ⟨reader, hopen, hcount, ?_, fun pageNo hle => ?_⟩
  · show reader.decryptor.config.pageSize = _
    rw [hdec]
  · exact reader.fetchPage_of_open C hsource hdec (hcount.symm ▸ hdb.length) (hcount.symm ▸ hle)

/-- A database that reaches the lock-byte page is rejected there, with the error of a wrong passphrase or
corrupted data. -/
theorem verify_export_reject (hrun : Undisturbed world cipher passphraseFile inputPath config passphrase content)
    (hdb : Database C config passphrase salt count plain content) (hlt : count < 2 ^ 32) (hne : passphrase ≠ [])
    (hreach : lockBytePage config ≤ count) (hzero : ¬ ZeroTag C config passphrase salt) (outputPath : Path) :
    verify C world ⟨cipher, passphraseFile, false, inputPath⟩ =
        some (.error (.reader (.decrypt (.authenticationFailed (lockBytePage config))))) ∧
      exportCommand C world ⟨cipher, passphraseFile, false, inputPath, outputPath⟩ =
        some (.error (.reader (.decrypt (.authenticationFailed (lockBytePage config)))), none) := by
  have hpos : 0 < count := Nat.lt_of_lt_of_le (Nat.lt_trans Nat.zero_lt_one (lockBytePage_gt config)) hreach
  obtain ⟨reader, hopen, hcount, -, hfetch⟩ := hdb.openReader C hrun hpos hlt hne
  have hfail : reader.Fails C (lockByte config) (.decrypt (.authenticationFailed (lockBytePage config))) := by
    rw [reader.fails_iff C, hfetch _ hreach, hdb.hole _ hreach rfl, openPage_hole_error C config passphrase salt hzero]
    rfl
  have hbelow : ∀ below : NonZeroU32, below.get < (lockByte config).get → ∃ bytes, reader.Reads C below bytes := by
    intro below hlt'
    have hle : below.get ≤ count := Nat.le_trans (Nat.le_of_lt hlt') hreach
    refine ⟨clearReserve config (plain below), (reader.reads_iff C).2 ?_⟩
    rw [hfetch below hle, hdb.openPage hle (Nat.ne_of_lt hlt')]
    rfl
  have hread := readAll_eq_error C (hcount ▸ hreach) hfail hbelow
  constructor
  · rw [verify_eq, hopen]
    simp only [Except.bind, hread]
  · rw [exportCommand_quiet C hrun.quiet hrun.fresh, hopen]
    simp only [exportOutcome, hread]

/-- `verify` and `export` accept a database as SQLCipher writes it, and export its plaintext, exactly when it
ends before the lock-byte page or the zero page has a zero tag there; the passphrase has to be one at all. -/
theorem verify_export_accept_iff (hrun : Undisturbed world cipher passphraseFile inputPath config passphrase content)
    (hdb : Database C config passphrase salt count plain content) (hpos : 0 < count) (hlt : count < 2 ^ 32) (outputPath : Path) :
    (verify C world ⟨cipher, passphraseFile, false, inputPath⟩ = some (.ok ()) ∧
      ∃ image, exportCommand C world ⟨cipher, passphraseFile, false, inputPath, outputPath⟩ = some (.ok (), some (.file image)) ∧
        ∀ pageNo : NonZeroU32, pageNo.get ≤ count → pageNo.get ≠ lockBytePage config →
          ∀ i, (pageNo.get = 1 → i ≠ 18 ∧ i ≠ 19) →
            (pageOf config.pageSize image pageNo)[i]? = (clearReserve config (plain pageNo))[i]?) ↔
      passphrase ≠ [] ∧ (count < lockBytePage config ∨ ZeroTag C config passphrase salt) := by
  by_cases hne : passphrase = []
  · -- no reader opens with an empty passphrase
    constructor
    · rintro ⟨hverify, -⟩
      obtain ⟨-, reader, hopen, -⟩ := (verify_eq_ok_iff C).1 hverify
      obtain ⟨_, _, passphrase', source, -, -, hpassphrase, -, hreader⟩ := openReader_eq_ok C hopen
      rw [hrun.passphrase, Except.ok.injEq] at hpassphrase
      subst hpassphrase
      exact absurd hne (SqlCipherReader.open_eq_ok C (Prod.ext hreader rfl)).2.1
    · rintro ⟨h, -⟩
      exact absurd hne h
  obtain ⟨reader, hopen, hcount, hsize, hfetch⟩ := hdb.openReader C hrun hpos hlt hne
  have hreads : ∀ {pageNo : NonZeroU32} {bytes : Bytes}, pageNo.get ≤ count → (reader.Reads C pageNo bytes ↔
      PageDecryptor.openPage C ⟨config, .derive C config passphrase salt⟩ pageNo (pageOf config.pageSize content pageNo) =
        .ok bytes) := by
    intro pageNo bytes hle
    rw [reader.reads_iff C, hfetch pageNo hle, mapError_eq_ok_iff]
  -- reading all pages is up to the lock-byte page
  have hall : (∀ pageNo : NonZeroU32, pageNo.get ≤ reader.pageCount → ∃ bytes, reader.Reads C pageNo bytes) ↔
      count < lockBytePage config ∨ ZeroTag C config passphrase salt := by
    rw [← hdb.opens_iff, hcount]
    exact forall_congr' fun pageNo => forall_congr' fun hle => exists_congr fun bytes => hreads hle
  rw [and_iff_right hne, ← hall]
  constructor
  · rintro ⟨hverify, -⟩
    obtain ⟨-, reader', hopen', hread⟩ := (verify_eq_ok_iff C).1 hverify
    rw [hopen, Except.ok.injEq] at hopen'
    subst hopen'
    exact hread
  · intro hread
    refine ⟨(verify_eq_ok_iff C).2 ⟨hrun.stdout, reader, hopen, hread⟩, reader.plaintextImage C, ?_, fun pageNo hle hpage i _ => ?_⟩
    · have hverdict : readAll C reader = .ok () := (readAll_eq_ok_iff C).2 hread
      rw [exportCommand_quiet C hrun.quiet hrun.fresh, hopen]
      simp only [exportOutcome, hverdict, report, hrun.stdout]
    · rw [← hsize, reader.pageOf_plaintextImage C (hcount ▸ hle),
        reader.pageBuffer_of_reads C ((hreads hle).2 (hdb.openPage hle hpage))]

end Acceptance

/-! ## The sample, alone and in front of a file that reaches the lock-byte page -/

theorem lockBytePage_sample : lockBytePage sampleConfig = 1048577 := by decide

theorem database_sample : Database sample sampleConfig samplePassphrase sampleSalt 1 (fun _ => samplePlain) samplePage := by
  have hopen : ∀ pageNo : NonZeroU32, pageNo.get ≤ 1 → pageNo.get ≠ lockBytePage sampleConfig →
      openPage sample ⟨sampleConfig, .derive sample sampleConfig samplePassphrase sampleSalt⟩ pageNo samplePage =
        .ok samplePlain := by
    intro pageNo hle _
    obtain rfl : pageNo = .min := NonZeroU32.ext (Nat.le_antisymm hle pageNo.pos)
    rw [derive_sample]
    exact openPage_samplePage
  have hdb := Database.of_pages (by decide) (by decide) hopen (fun pageNo hle heq => ?_) (by decide +kernel)
  · rwa [show pageNumbers 1 = [.min] from rfl, List.flatMap_singleton] at hdb
  · have := lockBytePage_gt sampleConfig
    omega

/-- An encrypted page other than the first, under the sample's primitives. -/
def freePage : Bytes := List.replicate 976 0 ++ (sampleIv.toList ++ sampleTag.toList)

def reachingPage (pageNo : NonZeroU32) : Bytes :=
  if pageNo.get = 1 then samplePage else if pageNo.get = 1048577 then List.replicate 1024 0 else freePage

def reachingPlain (pageNo : NonZeroU32) : Bytes :=
  (openPage sample sampleDecryptor pageNo (reachingPage pageNo)).toOption.getD []

/-- 1048577 pages of 1024 bytes, the last of them the lock-byte page. -/
def reachingDatabase : Bytes := (pageNumbers 1048577).flatMap reachingPage

theorem database_reaching :
    Database sample sampleConfig samplePassphrase sampleSalt 1048577 reachingPlain reachingDatabase := by
  have hfree : ∀ pageNo : NonZeroU32, sampleDecryptor.Authentic sample pageNo freePage := by
    intro pageNo
    have htag : sampleDecryptor.config.tagOf freePage = sampleTag.toList := by decide +kernel
    refine ⟨by decide +kernel, (sampleDecryptor.verifyPageHmac_eq_ok_iff sample).2 ?_⟩
    rw [htag]
    rfl
  refine Database.of_pages (by decide) (by decide) (fun pageNo hle hne => ?_) (fun pageNo hle heq => ?_) (by decide +kernel)
  · rw [derive_sample, show (⟨sampleConfig, sampleKeys⟩ : PageDecryptor) = sampleDecryptor from rfl]
    obtain ⟨plain, hplain⟩ : ∃ plain, openPage sample sampleDecryptor pageNo (reachingPage pageNo) = .ok plain := by
      unfold reachingPage
      by_cases h1 : pageNo.get = 1
      · obtain rfl : pageNo = .min := NonZeroU32.ext h1
        exact ⟨samplePlain, openPage_samplePage⟩
      · rw [if_neg h1, if_neg (lockBytePage_sample ▸ hne), openPage_ok_iff_authentic h1]
        exact hfree pageNo
    unfold reachingPlain
    rw [hplain]
    rfl
  · unfold reachingPage
    have hget : pageNo.get = 1048577 := heq.trans lockBytePage_sample
    rw [if_neg (by rw [hget]; decide), if_pos hget]
    rfl

theorem not_zeroTag_sample : ¬ ZeroTag sample sampleConfig samplePassphrase sampleSalt := by
  intro h
  have htag : sampleTag.toList = List.replicate 32 0 := h
  exact absurd htag (by decide)

/-- A database as SQLCipher writes it that reaches the lock-byte page, taken for a corrupted one. -/
theorem valid_database_rejected :
    Undisturbed (.of reachingDatabase) sampleCipher none samplePath sampleConfig samplePassphrase reachingDatabase ∧
      Database sample sampleConfig samplePassphrase sampleSalt 1048577 reachingPlain reachingDatabase ∧
      verify sample (.of reachingDatabase) ⟨sampleCipher, none, false, samplePath⟩ =
        some (.error (.reader (.decrypt (.authenticationFailed 1048577)))) ∧
      exportCommand sample (.of reachingDatabase) ⟨sampleCipher, none, false, samplePath, sampleOutput⟩ =
        some (.error (.reader (.decrypt (.authenticationFailed 1048577))), none) := by
  have hreject := verify_export_reject sample (undisturbed_of reachingDatabase) database_reaching (by decide) (by decide)
    (Nat.le_of_eq lockBytePage_sample) not_zeroTag_sample sampleOutput
  rw [lockBytePage_sample] at hreject
  exact ⟨undisturbed_of _, database_reaching, hreject⟩

theorem verify_export_accept_iff_sample :
    verify sample (.of samplePage) ⟨sampleCipher, none, false, samplePath⟩ = some (.ok ()) ∧
      ∃ image, exportCommand sample (.of samplePage) ⟨sampleCipher, none, false, samplePath, sampleOutput⟩ =
        some (.ok (), some (.file image)) := by
  have haccept := (verify_export_accept_iff sample (undisturbed_of samplePage) database_sample (by decide) (by decide)
    sampleOutput).2 ⟨by decide, .inl (lockBytePage_gt sampleConfig)⟩
  exact ⟨haccept.1, haccept.2.imp fun _ h => h.1⟩

end Veilite.Cli

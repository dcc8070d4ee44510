/-
Main-only `verify` and `export` agree: both read the pages `1..=page_count` of one reader in order, so they
succeed on the same inputs, fail with the same error, and the export is the image that was verified.
-/
import Veilite.Cli.AllOrNothing
import Veilite.Cli.Commands

namespace Veilite.Cli

open Buffer Veilite.Core Traverse Turso

section Agreement

variable (C : Primitives) (world : World)

/-- No operation on the destination fails. -/
structure Faults.Quiet (faults : Faults) : Prop where
  create : faults.create = none
  write : ∀ n, faults.write n = none
  sync : faults.sync = none
  remove : faults.remove = none

/-- A run over a database and a passphrase whose surroundings are in order: the options make a configuration,
the database is found with nothing beside it, and neither the destination nor standard output fails. -/
structure Undisturbed (cipher : CipherArgs) (passphraseFile : Option Path) (inputPath : Path) (config : CipherConfig)
    (passphrase content : Bytes) : Prop where
  config : cipher.config = .ok config
  passphrase : world.passphrase passphraseFile = .ok passphrase
  alone : checkCompanionFiles world.fs inputPath = .ok ()
  found : ∃ resolved, world.fs.canonicalize inputPath = .ok resolved ∧ checkCompanionFiles world.fs resolved = .ok () ∧
    world.fs.openFile resolved = .ok (FileSource content)
  fresh : world.destination = none
  quiet : world.faults.Quiet
  stdout : world.stdout = none

/-- The verdict on all pages of a reader: the first error, or none. -/
def readAll (reader : SqlCipherReader Unit IoError) : Except CliError Unit :=
  ((pageNumbers reader.pageCount).mapM (readerPage C reader)).map fun _ => ()

/-- The loop of `verify`, which reuses one scratch page, gives the verdict. -/
theorem verifyPages_eq (reader : SqlCipherReader Unit IoError) :
    ∃ scratch, forEach (verifyPage C reader) (List.range' 1 reader.pageCount) (List.replicate reader.pageSize 0) =
      some (readAll C reader, scratch) := by
  have hagree : Agree Eq (fun (scratch : Bytes) (_ : Unit) => scratch.length = reader.pageSize)
      (forEach (verifyPage C reader) (List.range' 1 reader.pageCount) (List.replicate reader.pageSize 0))
      (forEach (deliver (readerPage C reader) fun _ _ t => some (.ok (), t)) (pageNumbers reader.pageCount) ()) := by
    rw [forEach_pageNumbers _ reader.pageCount_lt]
    refine forEach_agree ?_ List.length_replicate
    -- a round overwrites the scratch page or clears it, so nothing of the last page shows
    rintro pageNo - scratch _ hscratch
    unfold verifyPage nonzeroPageNumber deliver readerPage
    rw [NonZeroU32.new_eq_some pageNo.pos pageNo.lt]
    dsimp only
    rw [reader.readPageInto_eq C hscratch]
    cases hfetch : (reader.fetchPage C pageNo ()).1 with
    | error e => exact .error rfl List.length_replicate
    | ok plain => exact .ok (reader.length_fetchPage C hfetch)
  rw [forEach_deliver _ fun t _ _ => t] at hagree
  unfold readAll
  generalize forEach (verifyPage C reader) _ _ = run at hagree ⊢
  cases hverdict : (pageNumbers reader.pageCount).mapM (readerPage C reader) with
  | error e =>
    rw [hverdict] at hagree
    cases hagree with
    | error he h => exact ⟨_, by rw [he]; rfl⟩
  | ok pages =>
    rw [hverdict] at hagree
    cases hagree with
    | ok h => exact ⟨_, rfl⟩

theorem readAll_eq_ok_iff {reader : SqlCipherReader Unit IoError} : readAll C reader = .ok () ↔
    ∀ pageNo : NonZeroU32, pageNo.get ≤ reader.pageCount → ∃ plain, reader.Reads C pageNo plain := by
  have hmap : readAll C reader = .ok () ↔ ∃ pages, (pageNumbers reader.pageCount).mapM (readerPage C reader) = .ok pages := by
    unfold readAll
    cases (pageNumbers reader.pageCount).mapM (readerPage C reader) <;> simp [Except.map]
  rw [hmap, mapM_pageNumbers_ok_iff]
  simp only [readerPage_eq_ok_iff]

/-- The error is that of the lowest page that does not read. -/
theorem readAll_eq_error {reader : SqlCipherReader Unit IoError} {pageNo : NonZeroU32} {e : ReaderError IoError}
    (hle : pageNo.get ≤ reader.pageCount) (hfail : reader.Fails C pageNo e)
    (hbelow : ∀ below : NonZeroU32, below.get < pageNo.get → ∃ plain, reader.Reads C below plain) :
    readAll C reader = .error (.reader e) := by
  have hmap : (pageNumbers reader.pageCount).mapM (readerPage C reader) = .error (.reader e) := by
    refine (mapM_pageNumbers_eq_error_iff reader.pageCount_lt).2
      ⟨pageNo, hle, fun below hlt => ?_, (readerPage_eq_error_iff C).2 hfail⟩
    obtain ⟨plain, hplain⟩ := hbelow below hlt
    exact ⟨plain, (readerPage_eq_ok_iff C).2 hplain⟩
  unfold readAll
  rw [hmap]
  rfl

variable {world}

/-- Main-only `verify`: open, read every page, report. -/
theorem verify_eq (cipher : CipherArgs) (passphraseFile : Option Path) (inputPath : Path) :
    verify C world ⟨cipher, passphraseFile, false, inputPath⟩ =
      some ((openReader C world inputPath cipher passphraseFile).bind fun reader =>
        (readAll C reader).bind fun _ => report world) := by
  unfold verify
  rw [if_neg Bool.false_ne_true]
  dsimp only
  rcases openReader C world inputPath cipher passphraseFile with e | reader
  · rfl
  obtain ⟨scratch, hrun⟩ := verifyPages_eq C reader
  dsimp only
  rw [hrun]
  cases hverdict : readAll C reader <;> simp [hverdict, Except.bind]

/-- Main-only `verify` succeeds exactly when the reader opens, every page reads and the report is written. -/
theorem verify_eq_ok_iff {cipher : CipherArgs} {passphraseFile : Option Path} {inputPath : Path} :
    verify C world ⟨cipher, passphraseFile, false, inputPath⟩ = some (.ok ()) ↔ world.stdout = none ∧
      ∃ reader, openReader C world inputPath cipher passphraseFile = .ok reader ∧
        ∀ pageNo : NonZeroU32, pageNo.get ≤ reader.pageCount → ∃ plain, reader.Reads C pageNo plain := by
  rw [verify_eq]
  rcases hopen : openReader C world inputPath cipher passphraseFile with e | reader
  · exact ⟨by rintro ⟨⟩, by rintro ⟨-, reader, ⟨⟩, -⟩⟩
  have hread : readAll C reader = .ok () ↔ _ := readAll_eq_ok_iff C
  constructor
  · intro h
    rcases hverdict : readAll C reader with e | _
    · simp only [Except.bind, hverdict] at h; cases h
    simp only [Except.bind, hverdict] at h
    unfold report at h
    cases hstdout : world.stdout with
    | some e => rw [hstdout] at h; cases h
    | none => exact ⟨rfl, reader, rfl, hread.1 hverdict⟩
  · rintro ⟨hstdout, _, ⟨⟩, hall⟩
    simp only [Except.bind, hread.2 hall, report, hstdout]

/-- The main-only writer into a fresh destination where nothing fails. -/
theorem writeDecryptedDatabase_quiet {faults : Faults} (hquiet : faults.Quiet) (path : Path)
    (reader : SqlCipherReader Unit IoError) :
    writeDecryptedDatabase faults C path reader none = some (match readAll C reader with
      | .error e => (.error e, none)
      | .ok () => (.ok (), some (.file (reader.plaintextImage C)))) := by
  have hsink : writePage faults path = fun _ page file => some (.ok (), ⟨file.content ++ page, file.writes + 1⟩) := by
    funext _ page file
    unfold writePage writeAll
    rw [hquiet.write]
    rfl
  obtain ⟨result, entry, hwrite, himage, -⟩ := writeDecryptedDatabase_allOrNothing C path reader faults none
  dsimp only at hwrite
  rw [hwrite]
  rw [writeDecryptedDatabase_eq, hsink, writePlaintextFile, createNew, hquiet.create] at hwrite
  dsimp only at hwrite
  rw [forEach_deliver _ fun (file : OutputFile) _ page => ⟨file.content ++ page, file.writes + 1⟩] at hwrite
  unfold readAll
  cases hverdict : (pageNumbers reader.pageCount).mapM (readerPage C reader) with
  | error e =>
    rw [hverdict] at hwrite
    simp only [Option.bind_eq_bind, Option.bind_some, Except.map, cleanupFailedExport, removeFile, hquiet.remove] at hwrite
    exact hwrite.symm
  | ok pages =>
    rw [hverdict] at hwrite
    simp only [Option.bind_eq_bind, Option.bind_some, Except.map, hquiet.sync] at hwrite
    cases hwrite
    obtain ⟨-, content, hcontent, -, rfl⟩ := himage rfl
    rw [hcontent]
    rfl

/-- The merged writer into a fresh destination where nothing fails, over a snapshot whose pages read. -/
theorem writeWalDatabase_quiet {faults : Faults} (hquiet : faults.Quiet) (path : Path) {snapshot : WalSnapshot}
    (hread : ∀ pageNo : NonZeroU32, pageNo.get ≤ snapshot.pageCount → ∃ bytes, snapshot.selectedPage pageNo = .ok bytes) :
    writeWalDatabase faults path snapshot none = some (.ok (), some (.file (standalone snapshot.image))) := by
  have hsink : ∀ (pageNo : NonZeroU32) (page : Bytes) (file : OutputFile), snapshot.selectedPage pageNo = .ok page →
      ∃ file', ((writeSnapshotPage faults path pageNo page file).map fun visited =>
        (visited.1.mapError VisitError.callback, visited.2)) = some (.ok (), file') := by
    intro pageNo page file hpage
    rw [writeSnapshotPage_eq faults path (selectedPage_ge hpage)]
    unfold writeAll
    rw [hquiet.write]
    exact ⟨_, rfl⟩
  obtain ⟨file, hrun⟩ := forEach_deliver_ok hsink (fun pageNo hmem => hread pageNo (mem_pageNumbers.1 hmem)) ⟨[], 0⟩
  rw [← snapshot.visitPages_eq] at hrun
  obtain ⟨result, entry, hwrite, himage, -⟩ := writeWalDatabase_allOrNothing path snapshot faults none
  dsimp only at hwrite
  rw [hwrite]
  unfold writeWalDatabase writePlaintextFile createNew at hwrite
  rw [hquiet.create] at hwrite
  simp only [hrun, Option.bind_eq_bind, Option.bind_some, Except.mapError, Option.pure_def, hquiet.sync] at hwrite
  cases hwrite
  obtain ⟨-, content, hcontent, -, rfl⟩ := himage rfl
  rw [hcontent]

/-- What an export of the opened reader ends with when nothing else fails. -/
def exportOutcome (world : World) : Except CliError (SqlCipherReader Unit IoError) → Except CliError Unit × Option Entry
  | .error e => (.error e, none)
  | .ok reader => match readAll C reader with
    | .error e => (.error e, none)
    | .ok () => (report world, some (.file (reader.plaintextImage C)))

/-- Main-only `export` into a fresh destination where nothing fails: open, read every page, report. -/
theorem exportCommand_quiet (hquiet : world.faults.Quiet) (hfresh : world.destination = none) (cipher : CipherArgs)
    (passphraseFile : Option Path) (inputPath outputPath : Path) :
    exportCommand C world ⟨cipher, passphraseFile, false, inputPath, outputPath⟩ =
      some (exportOutcome C world (openReader C world inputPath cipher passphraseFile)) := by
  unfold exportCommand exportOutcome
  rw [if_neg Bool.false_ne_true, hfresh]
  dsimp only
  rcases openReader C world inputPath cipher passphraseFile with e | reader
  · rfl
  dsimp only
  rw [writeDecryptedDatabase_quiet C hquiet]
  cases readAll C reader <;> rfl

/-- `export --wal` into a fresh destination where nothing fails, of a snapshot whose pages read. -/
theorem exportCommand_wal_quiet (hquiet : world.faults.Quiet) (hfresh : world.destination = none) (args : ExportArgs)
    (hwal : args.wal = true) {snapshot : WalSnapshot}
    (hopen : openWalSnapshot C world args.inputPath args.cipher args.passphraseFile = some (.ok snapshot))
    (hread : ∀ pageNo : NonZeroU32, pageNo.get ≤ snapshot.pageCount → ∃ bytes, snapshot.selectedPage pageNo = .ok bytes) :
    exportCommand C world args = some (report world, some (.file (standalone snapshot.image))) := by
  unfold exportCommand
  rw [if_pos hwal, hopen, hfresh]
  simp only [Option.bind_eq_bind, Option.bind_some, writeWalDatabase_quiet hquiet _ hread, Option.pure_def]

/-- A successful main-only `export` read every page and left the plaintext image. -/
theorem exportCommand_ok {cipher : CipherArgs} {passphraseFile : Option Path} {inputPath outputPath : Path}
    {entry : Option Entry} (h : exportCommand C world ⟨cipher, passphraseFile, false, inputPath, outputPath⟩ = some (.ok (), entry)) :
    ∃ reader, openReader C world inputPath cipher passphraseFile = .ok reader ∧
      (∀ pageNo : NonZeroU32, pageNo.get ≤ reader.pageCount → ∃ plain, reader.Reads C pageNo plain) ∧
      world.destination = none ∧ entry = some (.file (reader.plaintextImage C)) := by
  unfold exportCommand at h
  rw [if_neg Bool.false_ne_true] at h
  dsimp only at h
  rcases hopen : openReader C world inputPath cipher passphraseFile with e | reader
  · rw [hopen] at h; cases h
  rw [hopen] at h
  dsimp only at h
  obtain ⟨result, written, hwrite, himage, -⟩ := writeDecryptedDatabase_allOrNothing C outputPath reader world.faults
    world.destination
  dsimp only at hwrite
  rw [hwrite] at h
  rcases result with e | _
  · cases h
  obtain ⟨hfresh, content, rfl, hread, rfl⟩ := himage rfl
  refine ⟨reader, rfl, hread, hfresh, ?_⟩
  simp only [Option.bind_eq_bind, Option.bind_some, Option.pure_def, Option.some.injEq, Prod.mk.injEq] at h
  exact h.2.symm

/-- The reader of a run is `open`'s on the file found. -/
theorem openReader_eq_ok {path : Path} {cipher : CipherArgs} {passphraseFile : Option Path}
    {reader : SqlCipherReader Unit IoError} (h : openReader C world path cipher passphraseFile = .ok reader) :
    ∃ config resolved passphrase source, cipher.config = .ok config ∧ world.fs.canonicalize path = .ok resolved ∧
      world.passphrase passphraseFile = .ok passphrase ∧ world.fs.openFile resolved = .ok source ∧
      (SqlCipherReader.open C source config passphrase ()).1 = .ok reader := by
  unfold openReader openEncryptedDatabase at h
  obtain ⟨config, hconfig, h⟩ := bind_eq_ok_iff.1 h
  obtain ⟨_, -, h⟩ := bind_eq_ok_iff.1 h
  obtain ⟨resolved, hresolved, h⟩ := bind_eq_ok_iff.1 h
  obtain ⟨_, -, h⟩ := bind_eq_ok_iff.1 h
  obtain ⟨passphrase, hpassphrase, h⟩ := bind_eq_ok_iff.1 h
  obtain ⟨source, hsource, h⟩ := bind_eq_ok_iff.1 h
  exact ⟨config, resolved, passphrase, source, hconfig, mapError_eq_ok_iff.1 hresolved, mapError_eq_ok_iff.1 hpassphrase,
    mapError_eq_ok_iff.1 (mapError_eq_ok_iff.1 hsource), mapError_eq_ok_iff.1 h⟩

/-- An undisturbed run opens the database. -/
theorem Undisturbed.openReader {cipher : CipherArgs} {passphraseFile : Option Path} {inputPath : Path} {config : CipherConfig}
    {passphrase content : Bytes} (h : Undisturbed world cipher passphraseFile inputPath config passphrase content)
    {salt : Block} {count : Nat} (hne : passphrase ≠ []) (hlen : content.length = count * config.pageSize) (hpos : 0 < count)
    (hlt : count < 2 ^ 32) (hsalt : salt.toList = content.take 16) :
    ∃ reader, Cli.openReader C world inputPath cipher passphraseFile = .ok reader ∧ reader.source = FileSource content ∧
      reader.decryptor = ⟨config, .derive C config passphrase salt⟩ ∧ reader.pageCount = count := by
  obtain ⟨reader, hopen, hsource, hdec, hcount⟩ := SqlCipherReader.open_file C hne hlen hpos hlt hsalt
  obtain ⟨resolved, hresolved, halone, hfile⟩ := h.found
  refine ⟨reader, ?_, hsource, hdec, hcount⟩
  unfold Cli.openReader openEncryptedDatabase
  rw [h.config, h.alone, hresolved, h.passphrase]
  simp only [Except.mapError, bind, Except.bind, halone, hfile, hopen]

/-- Over an unchanging file, the pages of the reader are the file's, authenticated. -/
theorem reads_iff_of_openReader {path : Path} {cipher : CipherArgs} {passphraseFile : Option Path}
    {reader : SqlCipherReader Unit IoError} (h : openReader C world path cipher passphraseFile = .ok reader)
    {content : Bytes} (hsource : reader.source = FileSource content) {pageNo : NonZeroU32}
    (hle : pageNo.get ≤ reader.pageCount) (plain : Bytes) :
    reader.Reads C pageNo plain ↔ reader.decryptor.decryptPageInPlace C pageNo (pageOf reader.pageSize content pageNo) =
      some ⟨.ok (), plain⟩ := by
  obtain ⟨config, resolved, passphrase, source, -, -, -, -, hopen⟩ := openReader_eq_ok C h
  obtain ⟨hs, -, hlen, -⟩ := SqlCipherReader.open_eq_ok C (Prod.ext hopen rfl)
  rw [← hs, hsource] at hlen
  have hsize : content.length = reader.fileSize := Except.ok.inj hlen
  rw [SqlCipherReader.reads_file C hsource hsize hle, reader.decryptor.decryptPageInPlace_eq C, Option.some.injEq,
    Filled.closed_eq_ok_iff]

variable (world)

/-- Main-only `verify` and `export` agree on every input. `verify` succeeds exactly when the reader opens, every
page reads (over a file: authenticates) and the report is written. Into a fresh destination where nothing
fails, `export` ends as `verify` does; both fail as the lowest page that does not read. A successful export,
whatever might have failed, has the size of the encrypted file, and its page `n` is the plaintext of page `n`. -/
theorem verify_export_agree (cipher : CipherArgs) (passphraseFile : Option Path) (inputPath outputPath : Path) :
    let opened := openReader C world inputPath cipher passphraseFile
    let verified := verify C world ⟨cipher, passphraseFile, false, inputPath⟩
    let exported := exportCommand C world ⟨cipher, passphraseFile, false, inputPath, outputPath⟩
    (verified = some (.ok ()) ↔ world.stdout = none ∧ ∃ reader, opened = .ok reader ∧
      ∀ pageNo : NonZeroU32, pageNo.get ≤ reader.pageCount → ∃ plain, reader.Reads C pageNo plain) ∧
    (∀ reader content, opened = .ok reader → reader.source = FileSource content →
      ∀ (pageNo : NonZeroU32) (plain : Bytes), pageNo.get ≤ reader.pageCount →
        (reader.Reads C pageNo plain ↔ reader.decryptor.decryptPageInPlace C pageNo
          (pageOf reader.pageSize content pageNo) = some ⟨.ok (), plain⟩)) ∧
    (world.destination = none → world.faults.Quiet → exported.map Prod.fst = verified) ∧
    (∀ reader (pageNo : NonZeroU32) e, opened = .ok reader → pageNo.get ≤ reader.pageCount → reader.Fails C pageNo e →
      (∀ below : NonZeroU32, below.get < pageNo.get → ∃ plain, reader.Reads C below plain) →
      verified = some (.error (.reader e)) ∧
        (world.destination = none → world.faults.Quiet → exported = some (.error (.reader e), none))) ∧
    ∀ entry, exported = some (.ok (), entry) → ∃ reader content, opened = .ok reader ∧ entry = some (.file content) ∧
      content.length = reader.fileSize ∧
      ∀ pageNo : NonZeroU32, pageNo.get ≤ reader.pageCount →
        reader.Reads C pageNo (pageOf reader.pageSize content pageNo) := by
  intro opened verified exported
  have hverified : verified = some (opened.bind fun reader => (readAll C reader).bind fun _ => report world) :=
    verify_eq C cipher passphraseFile inputPath
  have hexported : world.destination = none → world.faults.Quiet → exported = some (exportOutcome C world opened) :=
    fun hfresh hquiet => exportCommand_quiet C hquiet hfresh cipher passphraseFile inputPath outputPath
  -- both commands are one verdict on reading all pages
  refine ⟨verify_eq_ok_iff C, fun reader content hopen hsource pageNo plain hle =>
    reads_iff_of_openReader C hopen hsource hle plain,
    fun hfresh hquiet => ?_, fun reader pageNo e hopen hle hfail hbelow => ?_, fun entry hok => ?_⟩
  · rw [hverified, hexported hfresh hquiet]
    rcases opened with e | reader
    · rfl
    unfold exportOutcome
    cases hverdict : readAll C reader <;> simp [Except.bind, hverdict]
  · have hread := readAll_eq_error C hle hfail hbelow
    refine ⟨?_, fun hfresh hquiet => ?_⟩
    · rw [hverified, hopen]
      simp only [Except.bind, hread]
    · rw [hexported hfresh hquiet, hopen]
      simp only [exportOutcome, hread]
  · obtain ⟨reader, hopen, hread, -, rfl⟩ := exportCommand_ok C hok
    refine ⟨reader, _, hopen, rfl, reader.length_plaintextImage C, fun pageNo hle => ?_⟩
    obtain ⟨plain, hplain⟩ := hread pageNo hle
    rw [reader.pageOf_plaintextImage C hle, reader.pageBuffer_of_reads C hplain]
    exact hplain

end Agreement

theorem undisturbed_of (content : Bytes) :
    Undisturbed (.of content) sampleCipher none samplePath sampleConfig samplePassphrase content where
  config := sampleCipher_config
  passphrase := rfl
  alone := rfl
  found := ⟨samplePath, rfl, rfl, rfl⟩
  fresh := rfl
  quiet := ⟨rfl, fun _ => rfl, rfl, rfl⟩
  stdout := rfl

/-- Any undisturbed run over the one-page database opens the same reader. -/
theorem Undisturbed.openReader_sample {world : World} {path : Path}
    (h : Undisturbed world sampleCipher none path sampleConfig samplePassphrase samplePage) :
    Cli.openReader sample world path sampleCipher none = .ok sampleReader := by
  have hlen : samplePage.length = 1 * sampleConfig.pageSize := length_samplePage
  have hsalt : sampleSalt.toList = samplePage.take 16 := by decide +kernel
  obtain ⟨⟨source, decryptor, fileSize, pageCount, hsize, hpos, hlt⟩, hopen, hsource, hdec, hcount⟩ :=
    h.openReader sample (by decide) hlen (by decide) (by decide) hsalt
  obtain rfl : source = FileSource samplePage := hsource
  obtain rfl : decryptor = sampleDecryptor := by rw [show decryptor = _ from hdec, derive_sample]; rfl
  obtain rfl : pageCount = 1 := hcount
  obtain rfl : 1024 = fileSize := hsize
  exact hopen

theorem openReader_sample : openReader sample (.of samplePage) samplePath sampleCipher none = .ok sampleReader :=
  (undisturbed_of samplePage).openReader_sample

end Veilite.Cli

/-
`main.rs` and the half of `snapshot.rs` under it, call by call: every operation of the commands on the world
outside, in the order of the source. What answers the calls is arbitrary, and may change between two of them;
`World` is the special case that answers from what it was at the start.
-/
import Veilite.Lib.Interact
import Veilite.Cli.Inspect

namespace Veilite.Cli.Stepwise

open Buffer Veilite.Core Turso Interact

/-! ## The calls -/

/-- What a run asks for: the file system, the passphrase, the one input file it opens, the engine on the
database's files, the destination and standard output. -/
inductive Call
  | symlinkMetadata (path : Path)
  | metadata (path : Path)
  | canonicalize (path : Path)
  | readPassphrase (file : Option Path)
  | openFile (path : Path)
  | fileLen
  | readExactAt (offset : Nat) (output : Bytes)
  | platformIo
  | openDatabase (path : Path) (codec : SqlCipherCodec)
  | connect (codec : SqlCipherCodec)
  | beginRead
  | pageCount
  | readPage (number : Nat)
  | rollback
  | createNew (path : Path)
  | writeAll (bytes : Bytes)
  | syncAll
  | removeFile (path : Path)
  | print (line : Message)

/-- The answers. A read of the input leaves the buffer as long as it was, whatever it gives. -/
def Call.Reply : Call → Type
  | .symlinkMetadata _ | .metadata _ => Except IoError Metadata
  | .canonicalize _ => Except IoError Path
  | .readPassphrase _ => Except IoError Bytes
  | .fileLen => Except IoError Nat
  | .readExactAt _ output => {read : Filled IoError UInt8 // read.buffer.length = output.length}
  | .platformIo | .openDatabase _ _ | .connect _ | .beginRead => Except LimboError Unit
  | .pageCount => Except LimboError Int
  | .readPage _ => Except LimboError Bytes
  | .rollback => Unit
  | .openFile _ | .createNew _ | .writeAll _ | .syncAll | .removeFile _ | .print _ => Except IoError Unit

def Host : Interface := ⟨Call, Call.Reply⟩

section Commands

variable (C : Primitives) {σ : Type} (env : Environment Host σ)

/-! ## The input file -/

/-- The opened input file. -/
def fileSource : ReadAt (Run Host σ) IoError where
  readExactAt offset output run :=
    let read := perform env (.readExactAt offset output) run
    (read.1.1, read.2)
  len run := perform env .fileLen run
  length_readExactAt _ _ _ := (perform env (.readExactAt _ _) _).1.2

/-- `SqlCipherReader::open`. -/
def openSource (source : ReadAt (Run Host σ) IoError) (config : CipherConfig) (passphrase : Bytes) :
    Program Host σ (ReaderError IoError) (SqlCipherReader (Run Host σ) IoError) := fun run =>
  some (SqlCipherReader.open C source config passphrase run)

/-- `reader.read_page_into(page_no, output)?`. -/
def readPageInto (reader : SqlCipherReader (Run Host σ) IoError) (pageNo : NonZeroU32) (output : Bytes) :
    Program Host σ (ReaderError IoError) Bytes := fun run =>
  (reader.readPageInto C pageNo output run).map fun read => (read.1.result.map fun _ => read.1.buffer, read.2)

/-! ## Opening the main file -/

def companionExists (path : Path) : Program Host σ IoError Bool := do
  match ← ask env (.symlinkMetadata path) with
  | .ok _ => return true
  | .error error =>
    if error.kind = .notFound then return false
    else throw (pathIoError "failed to inspect companion file" path error)

/-- One round of `check_companion_files`. -/
def checkCompanionFile (path : Path) (suffix : Bytes) (kind : String) : Program Host σ IoError Unit := do
  let found ← companionExists env (companion path suffix)
  refuse (found = true) ⟨.unsupported, [.text s!"SQLCipher {kind} companion file is unsupported: ",
    .debug (companion path suffix)]⟩

def checkCompanionFiles (path : Path) : Program Host σ IoError Unit := do
  checkCompanionFile env path walSuffix "WAL"
  checkCompanionFile env path journalSuffix "rollback journal"

def openEncryptedDatabase (path : Path) : Program Host σ IoError (ReadAt (Run Host σ) IoError) := do
  orThrow (pathIoError "failed to open encrypted database" path) (ask env (.openFile path))
  return fileSource env

def openReader (path : Path) (cipher : CipherArgs) (passphraseFile : Option Path) :
    Program Host σ CliError (SqlCipherReader (Run Host σ) IoError) := do
  let config ← lift cipher.config
  mapError .io (checkCompanionFiles env path)
  let resolved ← orThrow (fun source => .io (pathIoError "failed to resolve encrypted database" path source))
    (ask env (.canonicalize path))
  mapError .io (checkCompanionFiles env resolved)
  let passphrase ← orThrow .io (ask env (.readPassphrase passphraseFile))
  let source ← mapError .io (openEncryptedDatabase env resolved)
  mapError .reader (openSource C source config passphrase)

/-! ## Opening a snapshot -/

def rejectJournal (path : Path) : Program Host σ OpenError Unit := do
  match ← ask env (.symlinkMetadata (companion path journalSuffix)) with
  | .ok _ => throw (.companion (companion path journalSuffix))
  | .error error => refuse (error.kind ≠ .notFound) (.io error)

/-- `WalInput::open`. -/
def openWalInput (path : Path) : Program Host σ OpenError WalInput := do
  rejectJournal env path
  let resolved ← orThrow .io (ask env (.canonicalize path))
  rejectJournal env resolved
  let main ← orThrow .io (ask env (.metadata resolved))
  refuse (¬ main.isFile) (.walInput [.text "main database is not a regular file"])
  let wal := companion resolved walSuffix
  let metadata ← orThrow (fun error =>
    .io ⟨error.kind, [.text "failed to inspect WAL ", .debug wal, .text ": "] ++ error.message⟩) (ask env (.metadata wal))
  refuse (¬ metadata.isFile) (.walInput [.text "WAL is not a regular file: ", .debug wal])
  -- a WAL beside an alias has to be the same file
  let aliasWal := companion path walSuffix
  match ← ask env (.symlinkMetadata aliasWal) with
  | .ok _ =>
    let beside ← orThrow .io (ask env (.canonicalize aliasWal))
    let sibling ← orThrow .io (ask env (.canonicalize wal))
    refuse (beside ≠ sibling) (.walInput [.text "conflicting WAL beside input alias: ", .debug aliasWal])
  | .error error => refuse (error.kind ≠ .notFound) (.io error)
  refuse (toStr resolved = none) .nonUtf8Path
  return ⟨resolved, metadata.len⟩

/-- The first half of `open_connection`, before the engine. -/
def openCodec (resolved : Path) (config : CipherConfig) (passphrase : Bytes) (walPages : Option Nat) :
    Program Host σ OpenError (SqlCipherCodec × Nat) := do
  refuse (passphrase = []) (.decrypt .emptyPassphrase)
  let path ← lift ((toStr resolved).elim (.error .nonUtf8Path) .ok)
  orThrow .io (ask env (.openFile resolved))
  let size ← orThrow .io (ask env .fileLen)
  refuse (size = 0) (.source .emptyFile)
  refuse (size < config.pageSize) (.source (.fileTooSmall size config.pageSize))
  refuse (size % config.pageSize ≠ 0) (.source (.invalidFileSize size config.pageSize))
  let pageCount ← lift ((tryFrom 32 (size / config.pageSize)).elim
    (.error (.source (.tooManyPages (size / config.pageSize)))) .ok)
  let firstPage ← ask env (.readExactAt 0 (List.replicate config.pageSize 0))
  lift (firstPage.1.result.mapError .io)
  let salt ← panicking ((slice firstPage.1.buffer 0 16).bind (Arr.ofList 16))
  let decoder ← lift ((PageDecryptor.new C config passphrase salt).mapError .decrypt)
  -- page 1 authenticates under the caller's key before the engine is asked anything
  let page ← panicking (decoder.decryptPageInPlace C .min firstPage.1.buffer)
  lift (page.result.mapError .decrypt)
  return (.new C decoder config salt pageCount walPages (walPages.map fun _ => path),
    saturatingAdd 32 pageCount (walPages.getD 0))

def openConnection (resolved : Path) (config : CipherConfig) (passphrase : Bytes) (walPages : Option Nat) :
    Program Host σ OpenError Nat := do
  let (codec, maximum) ← openCodec C env resolved config passphrase walPages
  orThrow .turso (ask env .platformIo)
  orThrow .turso (ask env (.openDatabase resolved codec))
  orThrow .turso (ask env (.connect codec))
  return maximum

/-- A read transaction of the engine. -/
structure WalSnapshot where
  pageCount : Nat
  pageSize : Nat

/-- The read transaction of `snapshot`. When it is refused here no `ROLLBACK` is sent. -/
def beginSnapshot (config : CipherConfig) (maximum : Nat) : Program Host σ OpenError WalSnapshot := do
  orThrow .turso (ask env .beginRead)
  let count ← orThrow .turso (ask env .pageCount)
  refuse (¬ (0 ≤ count ∧ count < 2 ^ 32 ∧ count.toNat > 0 ∧ count.toNat ≤ maximum)) (.snapshotSize count maximum)
  return ⟨count.toNat, config.pageSize⟩

/-- `WalInput::snapshot`. -/
def snapshot (input : WalInput) (config : CipherConfig) (passphrase : Bytes) : Program Host σ OpenError WalSnapshot := do
  let maximum ← openConnection C env input.path config passphrase (some (input.frames config))
  beginSnapshot env config maximum

def openWalSnapshot (path : Path) (cipher : CipherArgs) (passphraseFile : Option Path) :
    Program Host σ CliError WalSnapshot := do
  let config ← lift cipher.config
  let input ← mapError .openDatabase (openWalInput env path)
  let passphrase ← orThrow .io (ask env (.readPassphrase passphraseFile))
  mapError .openDatabase (snapshot C env input config passphrase)

/-- One round of `visit_pages`. -/
def visitPage (snapshot : WalSnapshot) (visit : NonZeroU32 → Bytes → Program Host σ IoError Unit) (number : Nat) :
    Program Host σ VisitError Unit := do
  let pageNo ← lift ((NonZeroU32.new number).elim (.error (.read (.invalidArgument "snapshot page zero"))) .ok)
  let bytes ← orThrow .read (ask env (.readPage number))
  refuse (bytes.length ≠ snapshot.pageSize) (.pageLength snapshot.pageSize bytes.length)
  mapError .callback (visit pageNo bytes)

/-- `Drop for WalSnapshot`. -/
def dropSnapshot {ε : Type} : Program Host σ ε Unit := do
  let _ ← ask env .rollback

/-- `visit_pages`, which ends the transaction however it ends itself. -/
def visitPages (snapshot : WalSnapshot) (visit : NonZeroU32 → Bytes → Program Host σ IoError Unit) :
    Program Host σ VisitError Unit := do
  let visited ← outcome ((List.range' 1 snapshot.pageCount).foldlM
    (fun _ number => visitPage env snapshot visit number) ())
  dropSnapshot env
  lift visited

/-! ## The destination -/

def cleanupFailedExport (path : Path) (exportError : CliError) : Program Host σ CliError CliError := do
  match ← ask env (.removeFile path) with
  | .ok () => return exportError
  | .error cleanupError =>
    return if cleanupError.kind = .notFound then exportError else leftoverError path exportError cleanupError

/-- `write_plaintext_file`; `dropped` is what becomes of the closure when it is not called. -/
def writePlaintextFile (path : Path) (writePages dropped : Program Host σ CliError Unit) : Program Host σ CliError Unit := do
  match ← ask env (.createNew path) with
  | .error source =>
    dropped
    throw (.io (pathIoError "failed to create export" path source))
  | .ok () =>
    let result ← outcome (do
      writePages
      orThrow (fun source => CliError.io (pathIoError "failed to sync export" path source)) (ask env .syncAll))
    match result with
    | .ok () => return ()
    | .error error =>
      let error ← cleanupFailedExport env path error
      throw error

/-- One round of the main-only export, over the scratch page. -/
def writeReaderPage (path : Path) (reader : SqlCipherReader (Run Host σ) IoError) (plaintextPage : Bytes) (pageNo : Nat) :
    Program Host σ CliError Bytes := do
  let pageNo ← lift ((nonzeroPageNumber pageNo).mapError .io)
  let page ← mapError .reader (readPageInto C reader pageNo plaintextPage)
  orThrow (fun source => .io (pathIoError "failed to write export" path source)) (ask env (.writeAll page))
  return page

def writeDecryptedDatabase (path : Path) (reader : SqlCipherReader (Run Host σ) IoError) : Program Host σ CliError Unit :=
  writePlaintextFile env path (do
    let _ ← (List.range' 1 reader.pageCount).foldlM (writeReaderPage C env path reader) (List.replicate reader.pageSize 0)
    return ()) (return ())

/-- The callback of the merged image. -/
def writeSnapshotPage (path : Path) (number : NonZeroU32) (page : Bytes) : Program Host σ IoError Unit := do
  let bytes ← panicking (if number.get = 1 then (assign page 18 1).bind fun header => assign header 19 1 else some page)
  orThrow (pathIoError "failed to write export" path) (ask env (.writeAll bytes))

def writeWalDatabase (path : Path) (snapshot : WalSnapshot) : Program Host σ CliError Unit :=
  writePlaintextFile env path (mapError .visit (visitPages env snapshot (writeSnapshotPage env path))) (dropSnapshot env)

/-! ## The commands -/

def print (line : Message) : Program Host σ CliError Unit := orThrow .io (ask env (.print line))

def exportCommand (args : ExportArgs) : Program Host σ CliError Unit :=
  if args.wal then do
    let snapshot ← openWalSnapshot C env args.inputPath args.cipher args.passphraseFile
    writeWalDatabase env args.outputPath snapshot
    print env [.text s!"decrypted {snapshot.pageCount} snapshot pages to ", .display args.outputPath]
  else do
    let reader ← openReader C env args.inputPath args.cipher args.passphraseFile
    writeDecryptedDatabase C env args.outputPath reader
    print env [.text s!"decrypted {reader.pageCount} pages to ", .display args.outputPath]

/-- One round of the main-only `verify`, over the scratch page. -/
def verifyPage (reader : SqlCipherReader (Run Host σ) IoError) (plaintextPage : Bytes) (pageNo : Nat) :
    Program Host σ CliError Bytes := do
  let pageNo ← lift ((nonzeroPageNumber pageNo).mapError .io)
  mapError .reader (readPageInto C reader pageNo plaintextPage)

def verify (args : VerifyArgs) : Program Host σ CliError Unit :=
  if args.wal then do
    let snapshot ← openWalSnapshot C env args.inputPath args.cipher args.passphraseFile
    mapError .visit (visitPages env snapshot fun _ _ => return ())
    print env [.text s!"verified {snapshot.pageCount} snapshot pages"]
  else do
    let reader ← openReader C env args.inputPath args.cipher args.passphraseFile
    let _ ← (List.range' 1 reader.pageCount).foldlM (verifyPage C reader) (List.replicate reader.pageSize 0)
    print env [.text s!"verified {reader.pageCount} pages"]

def presence (path resolved : Path) (suffix : Bytes) : Program Host σ IoError String := do
  let found ← companionExists env (companion path suffix)
  let found ← if found then pure true else companionExists env (companion resolved suffix)
  return if found then "present" else "absent"

/-- The lines of the report before the companions are looked for. -/
def inspectReport (args : InspectArgs) (config : CipherConfig) (fileSize : Nat) : List Message :=
  [[.text "path: ", .display args.inputPath]] ++
  (match args.cipher.preset with
    | some preset => [[.text "configuration: preset"], [.text s!"preset: {preset.number}"]]
    | none => [[.text "configuration: custom"]]) ++
  [[.text s!"file size: {fileSize} bytes"],
    [.text s!"page size: {config.pageSize} bytes"],
    [.text s!"KDF iterations: {config.kdfIterations}"],
    [.text s!"KDF algorithm: {hashAlgorithmName config.kdfAlgorithm}"],
    [.text s!"HMAC algorithm: {hashAlgorithmName config.hmacAlgorithm}"],
    [.text s!"reserve size: {config.reserveSize} bytes"],
    [.text s!"page count: {fileSize / config.pageSize}"]]

def inspect (args : InspectArgs) : Program Host σ CliError Unit := do
  let config ← lift args.cipher.config
  let metadata ← orThrow (fun source => .io (pathIoError "failed to inspect encrypted database" args.inputPath source))
    (ask env (.metadata args.inputPath))
  refuse (¬ metadata.isFile) (.io ⟨.invalidInput, [.text "database path is not a file: ", .display args.inputPath]⟩)
  lift ((validateEncryptedFileSize metadata.len config.pageSize).mapError .io)
  let resolved ← orThrow (fun source => .io (pathIoError "failed to resolve encrypted database" args.inputPath source))
    (ask env (.canonicalize args.inputPath))
  (inspectReport args config metadata.len).foldlM (fun _ line => print env line) ()
  let wal ← mapError .io (presence env args.inputPath resolved walSuffix)
  print env [.text s!"WAL: {wal}"]
  let journal ← mapError .io (presence env args.inputPath resolved journalSuffix)
  print env [.text s!"journal: {journal}"]

def run : Command → Program Host σ CliError Unit
  | .export args => exportCommand C env args
  | .inspect args => inspect env args
  | .verify args => verify C env args

end Commands

end Veilite.Cli.Stepwise

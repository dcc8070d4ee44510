/-
`main.rs`: the commands. What a run meets outside (the file system, the passphrase, the engine, the
destination, standard output) is its `World`.
-/
import Veilite.Cli.Export
import Veilite.Turso.Opening

namespace Veilite.Cli

open Buffer Veilite.Core Traverse Turso

/-! ## Arguments -/

inductive CipherPresetArg
  | v3
  | v4
deriving DecidableEq, Repr

def CipherPresetArg.preset : CipherPresetArg → CipherPreset
  | .v3 => .sqlCipher3
  | .v4 => .sqlCipher4

structure CipherArgs where
  preset : Option CipherPresetArg
  custom : Bool
  pageSize : Option Nat
  kdfIterations : Option Nat
  kdfAlgorithm : Option HashAlgorithm
  hmacAlgorithm : Option HashAlgorithm
deriving DecidableEq

def CipherArgs.config (cipher : CipherArgs) : Except CliError CipherConfig :=
  match cipher.preset, cipher.custom with
  | some preset, false => .ok preset.preset.config
  | none, true =>
    match cipher.pageSize, cipher.kdfIterations, cipher.kdfAlgorithm, cipher.hmacAlgorithm with
    | some pageSize, some kdfIterations, some kdfAlgorithm, some hmacAlgorithm =>
      (CipherConfig.new pageSize kdfIterations kdfAlgorithm hmacAlgorithm).mapError .config
    | _, _, _, _ => .error (.io (.new .invalidInput "provide all four cipher options with --custom"))
  | _, _ => .error (.io (.new .invalidInput "select exactly one of --preset <3|4> or --custom"))

structure VerifyArgs where
  cipher : CipherArgs
  passphraseFile : Option Path
  wal : Bool
  inputPath : Path

structure ExportArgs where
  cipher : CipherArgs
  passphraseFile : Option Path
  wal : Bool
  inputPath : Path
  outputPath : Path

/-! ## Runs -/

/-- What a run meets: the file system, the first line of a passphrase file or the prompt's answer, the
engine, the entry at the destination and how operations on it fail, and how writing the report fails. -/
structure World where
  fs : FsView
  passphrase : Option Path → Except IoError Bytes
  engine : Engine
  destination : Option Entry
  faults : Faults
  stdout : Option IoError

section Run

variable (C : Primitives) (world : World)

/-- `companion_exists`: a dangling link is still an entry. -/
def companionExists (fs : FsView) (path : Path) : Except IoError Bool :=
  match fs.symlinkMetadata path with
  | .ok _ => .ok true
  | .error error =>
    if error.kind = .notFound then .ok false else .error (pathIoError "failed to inspect companion file" path error)

/-- `check_companion_files`. -/
def checkCompanionFiles (fs : FsView) (path : Path) : Except IoError Unit :=
  [(walSuffix, "WAL"), (journalSuffix, "rollback journal")].forM fun (suffix, kind) =>
    match companionExists fs (companion path suffix) with
    | .error e => .error e
    | .ok true => .error ⟨.unsupported, [.text s!"SQLCipher {kind} companion file is unsupported: ",
        .debug (companion path suffix)]⟩
    | .ok false => .ok ()

def openEncryptedDatabase (path : Path) : Except IoError (ReadAt Unit IoError) :=
  (world.fs.openFile path).mapError (pathIoError "failed to open encrypted database" path)

def openReader (path : Path) (cipher : CipherArgs) (passphraseFile : Option Path) :
    Except CliError (SqlCipherReader Unit IoError) := do
  let config ← cipher.config
  (checkCompanionFiles world.fs path).mapError .io
  let resolved ← (world.fs.canonicalize path).mapError fun source =>
    .io (pathIoError "failed to resolve encrypted database" path source)
  (checkCompanionFiles world.fs resolved).mapError .io
  -- the passphrase is asked for once the input passed its checks
  let passphrase ← (world.passphrase passphraseFile).mapError .io
  let source ← (openEncryptedDatabase world resolved).mapError .io
  (SqlCipherReader.open C source config passphrase ()).1.mapError .reader

/-- The registry of a fresh process. -/
def emptyRegistry : Registry := fun _ => none

def openWalSnapshot (path : Path) (cipher : CipherArgs) (passphraseFile : Option Path) :
    Option (Except CliError WalSnapshot) :=
  match (do
    let config ← cipher.config
    let input ← (WalInput.open world.fs path).mapError .openDatabase
    -- the passphrase is asked for once the input passed its checks
    let passphrase ← (world.passphrase passphraseFile).mapError .io
    return (config, input, passphrase) : Except CliError (CipherConfig × WalInput × Bytes)) with
  | .error e => some (.error e)
  | .ok (config, input, passphrase) => do
    let opened ← input.snapshot C world.fs world.engine config passphrase emptyRegistry
    return opened.1.mapError .openDatabase

/-- The report on standard output. -/
def report : Except CliError Unit :=
  match world.stdout with
  | some e => .error (.io e)
  | none => .ok ()

/-- One round of `verify`, over the scratch page. -/
def verifyPage (reader : SqlCipherReader Unit IoError) (pageNo : Nat) (plaintextPage : Bytes) :
    Option (Except CliError Unit × Bytes) :=
  match nonzeroPageNumber pageNo with
  | .error e => some (.error (.io e), plaintextPage)
  | .ok pageNo => do
    let (read, _) ← reader.readPageInto C pageNo plaintextPage ()
    match read.result with
    | .error e => return (.error (.reader e), read.buffer)
    | .ok () => return (.ok (), read.buffer)

/-- The `verify` command. -/
def verify (args : VerifyArgs) : Option (Except CliError Unit) :=
  if args.wal then do
    match ← openWalSnapshot C world args.inputPath args.cipher args.passphraseFile with
    | .error e => return .error e
    | .ok snapshot =>
      let run ← snapshot.visitPages (fun _ _ t => some (.ok (), t)) ()
      match run.1 with
      | .error e => return .error (.visit e)
      | .ok () => return report world
  else
    match openReader C world args.inputPath args.cipher args.passphraseFile with
    | .error e => some (.error e)
    | .ok reader => do
      let run ← forEach (verifyPage C reader) (List.range' 1 reader.pageCount) (List.replicate reader.pageSize 0)
      match run.1 with
      | .error e => return .error e
      | .ok () => return report world

/-- The `export` command, with the entry it leaves at the destination. The report of the main-only and the
merged export differ in their text alone. -/
def exportCommand (args : ExportArgs) : Option (Except CliError Unit × Option Entry) :=
  if args.wal then do
    match ← openWalSnapshot C world args.inputPath args.cipher args.passphraseFile with
    | .error e => return (.error e, world.destination)
    | .ok snapshot =>
      let written ← writeWalDatabase world.faults args.outputPath snapshot world.destination
      match written.1 with
      | .error e => return (.error e, written.2)
      | .ok () => return (report world, written.2)
  else
    match openReader C world args.inputPath args.cipher args.passphraseFile with
    | .error e => some (.error e, world.destination)
    | .ok reader => do
      let written ← writeDecryptedDatabase world.faults C args.outputPath reader world.destination
      match written.1 with
      | .error e => return (.error e, written.2)
      | .ok () => return (report world, written.2)

end Run

/-! ## The one-page database on the command line -/

/-- `--custom --page-size 1024 --kdf-iterations 1 --kdf-algorithm sha256 --hmac-algorithm sha256`. -/
def sampleCipher : CipherArgs := ⟨none, true, some 1024, some 1, some .sha256, some .sha256⟩

/-- `/out`. -/
def sampleOutput : Path := ⟨[0x2f, 0x6f, 0x75, 0x74]⟩

/-- A run that finds a database at `/db` with nothing beside it, answers the prompt with the sample's
passphrase, and meets no failure. -/
def World.of (content : Bytes) : World where
  fs := .flat fun path => if path = samplePath then some content else none
  passphrase _ := .ok samplePassphrase
  engine := {
    platformIo := none
    openDatabase := none
    codecMismatch := .other 0
    connect := none
    beginRead := none
    pageCount := .ok 1
    readPage := fun _ _ => .error (.other 0) }
  destination := none
  faults := ⟨none, fun _ => none, none, none⟩
  stdout := none

/-- The sample database with an empty WAL beside it, and an engine that reads its one page. -/
def sampleWalWorld : World := { World.of samplePage with
  fs := .flat fun path =>
    if path = samplePath then some samplePage else if path = companion samplePath walSuffix then some [] else none
  engine := { (World.of samplePage).engine with
    readPage := fun _ number => if number = 1 then .ok samplePlain else .error (.other 0) } }

theorem sampleCipher_config : sampleCipher.config = .ok sampleConfig := by decide +kernel

end Veilite.Cli

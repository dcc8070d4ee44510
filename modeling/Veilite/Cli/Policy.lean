/-
What a run of `verify` or `export` is for, as an automaton over its calls and their answers: what it may look at,
when it may ask for the passphrase, open the input, use the engine, create, fill, sync and remove the destination,
and report. Nothing here is the code's; a run is compared with it.
-/
import Veilite.Cli.Stepwise
import Veilite.Turso.Opening
import Veilite.Cli.AllOrNothing

namespace Veilite.Cli.Stepwise

open Buffer Veilite.Core Turso Interact

/-- A command that reads a database: `verify`, or `export` to an output. -/
structure Job where
  cipher : CipherArgs
  passphraseFile : Option Path
  wal : Bool
  inputPath : Path
  output : Option Path

/-- The command line of the job. -/
def Job.command (job : Job) : Command :=
  match job.output with
  | none => .verify ⟨job.cipher, job.passphraseFile, job.wal, job.inputPath⟩
  | some outputPath => .export ⟨job.cipher, job.passphraseFile, job.wal, job.inputPath, outputPath⟩

/-- What a job reports about `count` pages. -/
def Job.report (job : Job) (count : Nat) : Message :=
  match job.output, job.wal with
  | none, false => [.text s!"verified {count} pages"]
  | none, true => [.text s!"verified {count} snapshot pages"]
  | some outputPath, false => [.text s!"decrypted {count} pages to ", .display outputPath]
  | some outputPath, true => [.text s!"decrypted {count} snapshot pages to ", .display outputPath]

/-! ## Where a run is -/

/-- What looking at the file system has found: paths with no entry, regular files with their lengths, what paths
resolve to, and what the input does. -/
structure Findings where
  vacant : List Path
  files : List (Path × Nat)
  real : List (Path × Path)
  resolved : Option Path

/-- The passphrase was given, after these findings. -/
structure Unlocked where
  found : Findings
  resolved : Path
  passphrase : Bytes

/-- Where the pages come from: the opened file under a key, or a transaction of the engine. -/
inductive Origin
  | file (decryptor : PageDecryptor)
  | engine

inductive Destination
  | untouched
  | created
  | synced
  | removed
deriving DecidableEq

/-- Going through the pages: those read so far, authenticated and as they may be written; how many are written;
whether a transaction is open, nothing has failed, the destination is there and the report is out. -/
structure Paging where
  origin : Origin
  count : Nat
  pages : List Bytes
  written : Nat
  begun : Bool
  intact : Bool
  destination : Destination
  reported : Bool

/-- Before the first page. -/
def Paging.start (origin : Origin) (count : Nat) (begun : Bool) : Paging :=
  ⟨origin, count, [], 0, begun, true, .untouched, false⟩

inductive Phase
  | looking (found : Findings)
  | unlocked (key : Unlocked)
  | opened (key : Unlocked)
  | sized (key : Unlocked) (size : Nat)
  /-- Page 1 authenticated under the caller's key, for the engine. -/
  | authenticated (key : Unlocked) (size : Nat) (salt : Block)
  | platform (key : Unlocked) (size : Nat) (salt : Block)
  | registered (codec : SqlCipherCodec)
  | connected (codec : SqlCipherCodec)
  | begun (codec : SqlCipherCodec)
  | pages (paging : Paging)
  /-- A transaction was begun, and no page count that will do came of it. It is left to the drop of its connection. -/
  | refused
  | closed

/-! ## The rules -/

section Rules

variable (C : Primitives) (config : CipherConfig) (job : Job)

/-- The path is beside the input, or beside what it resolved to. -/
def Findings.Beside (found : Findings) (path : Path) : Prop :=
  ∃ base ∈ job.inputPath :: found.resolved.toList, ∃ suffix ∈ [walSuffix, journalSuffix], path = companion base suffix

/-- The input may be unlocked: there is no journal; without `--wal` no WAL either; with it, the main file and its WAL
are regular files, the path is text, and a WAL beside an alias is the same one. -/
structure Findings.Ready (found : Findings) (resolved : Path) : Prop where
  real : found.resolved = some resolved
  journal : ∀ base ∈ [job.inputPath, resolved], companion base journalSuffix ∈ found.vacant
  alone : job.wal = false → ∀ base ∈ [job.inputPath, resolved], companion base walSuffix ∈ found.vacant
  pair : job.wal = true → toStr resolved ≠ none ∧ (∃ size, (resolved, size) ∈ found.files) ∧
    (∃ size, (companion resolved walSuffix, size) ∈ found.files) ∧
    (companion job.inputPath walSuffix ∈ found.vacant ∨ ∃ path, (companion job.inputPath walSuffix, path) ∈ found.real ∧
      (companion resolved walSuffix, path) ∈ found.real)

def Findings.allows (found : Findings) : Call → Prop
  | .symlinkMetadata path => found.Beside job path
  | .metadata path => job.wal = true ∧ ∃ resolved, found.resolved = some resolved ∧
      (path = resolved ∨ path = companion resolved walSuffix)
  | .canonicalize path => found.resolved = none ∧ path = job.inputPath ∨
      job.wal = true ∧ ∃ resolved, found.resolved = some resolved ∧
        (path = companion job.inputPath walSuffix ∨ path = companion resolved walSuffix)
  | .readPassphrase file => file = job.passphraseFile ∧ ∃ resolved, found.Ready job resolved
  | _ => False

def Findings.next (found : Findings) : (call : Call) → call.Reply → Phase
  | .symlinkMetadata path, .ok _ =>
    if job.wal = true ∧ path = companion job.inputPath walSuffix then .looking found else .closed
  | .symlinkMetadata path, .error e =>
    if e.kind = .notFound then .looking { found with vacant := path :: found.vacant } else .closed
  | .metadata path, .ok metadata =>
    if metadata.isFile then .looking { found with files := (path, metadata.len) :: found.files } else .closed
  | .canonicalize path, .ok real => .looking { found with
      real := (path, real) :: found.real, resolved := found.resolved.orElse fun _ => some real }
  | .readPassphrase _, .ok passphrase =>
    found.resolved.elim .closed fun resolved => .unlocked ⟨found, resolved, passphrase⟩
  | _, _ => .closed

/-- The first read of the file: of whole pages only, and of the salt, or of page 1 with `--wal`. -/
def FirstRead (size offset : Nat) (output : Bytes) : Prop :=
  0 < size ∧ config.pageSize ∣ size ∧ size / config.pageSize < 2 ^ 32 ∧ offset = 0 ∧
    output = List.replicate (if job.wal then config.pageSize else databaseSaltSize) 0

/-- What the first read gives: the key of the reader, or a page 1 that authenticates. -/
def Unlocked.firstRead (key : Unlocked) (size : Nat) (read : Filled IoError UInt8) : Phase :=
  match read.result, Arr.ofList 16 (read.buffer.take 16) with
  | .ok (), some salt =>
    let decryptor : PageDecryptor := ⟨config, .derive C config key.passphrase salt⟩
    if job.wal then
      match decryptor.openPage C .min read.buffer with
      | .ok _ => .authenticated key size salt
      | .error _ => .closed
    else if key.passphrase = [] then .closed
    else .pages (.start (.file decryptor) (size / config.pageSize) false)
  | _, _ => .closed

/-- The codec that goes to the engine is that of the file that authenticated, for the WAL that was found. -/
def Unlocked.Codec (key : Unlocked) (size : Nat) (salt : Block) (codec : SqlCipherCodec) : Prop :=
  ∃ walSize, (companion key.resolved walSuffix, walSize) ∈ key.found.files ∧
    codec = (codecOf C key.resolved config key.passphrase
      (some (WalInput.frames ⟨key.resolved, walSize⟩ config)) size salt).1

namespace Paging

variable (paging : Paging)

/-- Nothing failed, and every page read so far has been dealt with. -/
def Clear : Prop :=
  paging.intact = true ∧ match job.output with
    | none => paging.destination = .untouched
    | some _ => paging.destination = .created ∧ paging.written = paging.pages.length

/-- The page after those read, from a buffer that was read for it. -/
def opened (buffer : Bytes) : Option Bytes :=
  match paging.origin, NonZeroU32.new (paging.pages.length + 1) with
  | .file decryptor, some pageNo => (decryptor.openPage C pageNo buffer).toOption
  | _, _ => none

/-- The page after those read, from the engine's. -/
def selected (bytes : Bytes) : Option Bytes :=
  if bytes.length = config.pageSize then some (if paging.pages = [] then standalone bytes else bytes) else none

/-- A page was read, or was not. -/
def turned (page : Option Bytes) : Paging :=
  match page with
  | some page => { paging with pages := paging.pages ++ [page] }
  | none => { paging with intact := false }

def allows : Call → Prop
  | .readExactAt offset output => paging.Clear job ∧ job.wal = false ∧ paging.pages.length < paging.count ∧
      offset = paging.pages.length * config.pageSize ∧ output = List.replicate config.pageSize 0
  | .readPage number => paging.Clear job ∧ paging.begun = true ∧ paging.pages.length < paging.count ∧
      number = paging.pages.length + 1
  | .rollback => paging.begun = true ∧ (paging.intact = false ∨ paging.Clear job ∧ paging.pages.length = paging.count)
  | .createNew path => job.output = some path ∧ paging.intact = true ∧ paging.destination = .untouched ∧ paging.pages = []
  | .writeAll bytes => paging.intact = true ∧ paging.destination = .created ∧
      paging.pages.length = paging.written + 1 ∧ paging.pages.getLast? = some bytes
  | .syncAll => paging.Clear job ∧ paging.destination = .created ∧ paging.begun = false ∧
      paging.pages.length = paging.count
  | .removeFile path => job.output = some path ∧ paging.intact = false ∧ paging.destination = .created ∧
      paging.begun = false
  | .print line => paging.intact = true ∧ paging.begun = false ∧ paging.reported = false ∧
      paging.destination = (if job.output = none then .untouched else .synced) ∧
      paging.pages.length = paging.count ∧ line = job.report paging.count
  | _ => False

def next : (call : Call) → call.Reply → Paging
  | .readExactAt _ _, read => match read.1.result with
    | .ok () => paging.turned (paging.opened C read.1.buffer)
    | .error _ => paging.turned none
  | .readPage _, .ok bytes => paging.turned (paging.selected config bytes)
  | .rollback, _ => { paging with begun := false }
  | .createNew _, .ok _ => { paging with destination := .created }
  | .writeAll _, .ok _ => { paging with written := paging.written + 1 }
  | .syncAll, .ok _ => { paging with destination := .synced }
  | .removeFile _, _ => { paging with destination := .removed }
  | .print _, .ok _ => { paging with reported := true }
  | _, _ => { paging with intact := false }

end Paging

def Phase.allows : Phase → Call → Prop
  | .looking found, call => found.allows job call
  | .unlocked key, .openFile path => path = key.resolved ∧ (job.wal = true → key.passphrase ≠ [])
  | .opened _, .fileLen => True
  | .sized _ size, .readExactAt offset output => FirstRead config job size offset output
  | .authenticated _ _ _, .platformIo => True
  | .platform key size salt, .openDatabase path codec => path = key.resolved ∧ key.Codec C config size salt codec
  | .registered codec, .connect codec' => codec' = codec
  | .connected _, .beginRead => True
  | .begun _, .pageCount => True
  | .pages paging, call => paging.allows config job call
  | _, _ => False

def Phase.next : Phase → (call : Call) → call.Reply → Phase
  | .looking found, call, reply => found.next job call reply
  | .unlocked key, .openFile _, .ok _ => .opened key
  | .opened key, .fileLen, .ok size => .sized key size
  | .sized key size, .readExactAt _ _, read => key.firstRead C config job size read.1
  | .authenticated key size salt, .platformIo, .ok _ => .platform key size salt
  | .platform _ _ _, .openDatabase _ codec, .ok _ => .registered codec
  | .registered codec, .connect _, .ok _ => .connected codec
  | .connected codec, .beginRead, .ok _ => .begun codec
  | .begun codec, .pageCount, .ok count =>
    if 0 < count ∧ count < 2 ^ 32 ∧ count.toNat ≤ codec.walPageLimit.getD 0 then
      .pages (.start .engine count.toNat true)
    else .refused
  | .begun _, _, _ => .refused
  | .pages paging, call, reply => .pages (paging.next C config call reply)
  | _, _, _ => .closed

def policy : Policy Host Phase where
  allows phase call := phase.allows C config job call
  next phase call reply := phase.next C config job call reply

/-- Nothing looked at yet. -/
def Phase.start : Phase := .looking ⟨[], [], [], none⟩

/-- Nothing is left behind: a destination that was created is synced or was tried to be removed, and a transaction that
was begun has had its `ROLLBACK`. -/
def Phase.Settled : Phase → Prop
  | .pages paging => paging.destination ≠ .created ∧ paging.begun = false
  | .begun _ | .refused => False
  | _ => True

/-- A run may end here: nothing is left behind but a transaction that was refused. -/
def Phase.Over : Phase → Prop
  | .pages paging => paging.destination ≠ .created ∧ paging.begun = false
  | .begun _ => False
  | _ => True

/-- The job is done: the report is out. -/
def Phase.Done : Phase → Prop
  | .pages paging => paging.reported = true
  | _ => False

theorem Phase.over_iff {phase : Phase} : phase.Over ↔ phase.Settled ∨ phase = .refused := by
  cases phase <;> simp [Over, Settled]

end Rules

end Veilite.Cli.Stepwise

/-
`main.rs`, the export's destination: a file created exclusively, written page by page, synced, and removed
again when any of that fails. What the entry at the destination path is, and which operations fail and
how, is state and input; nobody else touches the path.
-/
import Veilite.Core.Pages
import Veilite.Turso.Snapshot

namespace Veilite.Cli

open Buffer Veilite.Core Traverse Turso

/-! ## Errors -/

/-- `Box<dyn Error>`, by the type it holds. -/
inductive CliError
  | io (error : IoError)
  | config (error : CipherConfigError)
  | reader (error : ReaderError IoError)
  | openDatabase (error : OpenError)
  | visit (error : VisitError)
deriving DecidableEq

def CliError.message : CliError → Message
  | .io error => error.message
  | .config error => [.text error.toString]
  | .reader error => error.message
  | .openDatabase error => error.message
  | .visit error => error.message

/-- `path_io_error`: the error's kind, with the action and the path before its text. -/
def pathIoError (action : String) (path : Path) (source : IoError) : IoError :=
  ⟨source.kind, [.text action, .text " ", .debug path, .text ": "] ++ source.message⟩

/-! ## The destination -/

/-- What a directory entry at a path is: a regular file, or anything else, a dangling link included. -/
inductive Entry
  | file (content : Bytes)
  | other (id : Nat)
deriving DecidableEq

/-- How the operations on the destination fail: creating, the `n`-th `write_all` after some bytes of its
buffer have reached the file, syncing, and removing. -/
structure Faults where
  create : Option IoError
  write : Nat → Option (Nat × IoError)
  sync : Option IoError
  remove : Option IoError

/-- The created file: what it holds, and how often it was written to. -/
structure OutputFile where
  content : Bytes
  writes : Nat
deriving DecidableEq

variable (faults : Faults)

/-- `OpenOptions::create_new`: any entry at the path makes it fail. -/
def createNew (entry : Option Entry) : Except IoError OutputFile :=
  match faults.create with
  | some e => .error e
  | none => match entry with
    | some _ => .error (.new .alreadyExists "File exists (os error 17)")
    | none => .ok ⟨[], 0⟩

/-- `Write::write_all`. -/
def writeAll (bytes : Bytes) (file : OutputFile) : Except IoError Unit × OutputFile :=
  match faults.write file.writes with
  | none => (.ok (), ⟨file.content ++ bytes, file.writes + 1⟩)
  | some (written, e) => (.error e, ⟨file.content ++ bytes.take written, file.writes + 1⟩)

/-- `fs::remove_file`: a failure leaves the entry, unless it is that there is none. -/
def removeFile (entry : Option Entry) : Except IoError Unit × Option Entry :=
  match faults.remove with
  | none => (.ok (), none)
  | some e => (.error e, if e.kind = .notFound then none else entry)

/-- The error that reports a leftover plaintext file. -/
def leftoverError (path : Path) (exportError : CliError) (cleanupError : IoError) : CliError :=
  .io ⟨cleanupError.kind, [.text "export failed: "] ++ exportError.message ++
    [.text "; failed to remove partial plaintext file ", .debug path, .text ": "] ++ cleanupError.message ++
    [.text "; the file may contain decrypted data"]⟩

def cleanupFailedExport (path : Path) (exportError : CliError) (entry : Option Entry) : CliError × Option Entry :=
  let removed := removeFile faults entry
  match removed.1 with
  | .ok () => (exportError, removed.2)
  | .error cleanupError =>
    (if cleanupError.kind = .notFound then exportError else leftoverError path exportError cleanupError, removed.2)

/-- `write_plaintext_file`: the entry at `path` before and after. -/
def writePlaintextFile (path : Path) (writePages : OutputFile → Option (Except CliError Unit × OutputFile))
    (entry : Option Entry) : Option (Except CliError Unit × Option Entry) :=
  match createNew faults entry with
  | .error source => some (.error (.io (pathIoError "failed to create export" path source)), entry)
  | .ok file => do
    let written ← writePages file
    let result : Except CliError Unit := match written.1 with
      | .error e => .error e
      | .ok () => match faults.sync with
        | some source => .error (.io (pathIoError "failed to sync export" path source))
        | none => .ok ()
    match result with
    | .error error =>
      -- the file was created here, so it is not somebody else's that is removed
      let cleaned := cleanupFailedExport faults path error (some (.file written.2.content))
      return (.error cleaned.1, cleaned.2)
    | .ok () => return (.ok (), some (.file written.2.content))

/-! ## The two writers -/

/-- `nonzero_page_number`. -/
def nonzeroPageNumber (pageNo : Nat) : Except IoError NonZeroU32 :=
  match NonZeroU32.new pageNo with
  | none => .error (.new .invalidData "database page number is zero")
  | some pageNo => .ok pageNo

section Writers

variable (C : Primitives) (path : Path)

/-- One round of the main-only loop, over the scratch page and the file. -/
def writeReaderPage (reader : SqlCipherReader Unit IoError) (pageNo : Nat) (s : Bytes × OutputFile) :
    Option (Except CliError Unit × (Bytes × OutputFile)) :=
  match nonzeroPageNumber pageNo with
  | .error e => some (.error (.io e), s)
  | .ok pageNo => do
    let (read, _) ← reader.readPageInto C pageNo s.1 ()
    match read.result with
    | .error e => return (.error (.reader e), (read.buffer, s.2))
    | .ok () =>
      let written := writeAll faults read.buffer s.2
      return (written.1.mapError fun source => .io (pathIoError "failed to write export" path source),
        (read.buffer, written.2))

def writeDecryptedDatabase (reader : SqlCipherReader Unit IoError) (entry : Option Entry) :
    Option (Except CliError Unit × Option Entry) :=
  writePlaintextFile faults path (fun file => do
    let run ← forEach (writeReaderPage faults C path reader) (List.range' 1 reader.pageCount)
      (List.replicate reader.pageSize 0, file)
    return (run.1, run.2.2)) entry

/-- The callback of the merged image: page 1 is written with its two journal mode bytes set to 1. -/
def writeSnapshotPage (number : NonZeroU32) (page : Bytes) (file : OutputFile) :
    Option (Except IoError Unit × OutputFile) := do
  let bytes ← if number.get = 1 then do assign (← assign page 18 1) 19 1 else some page
  let written := writeAll faults bytes file
  return (written.1.mapError fun source => pathIoError "failed to write export" path source, written.2)

def writeWalDatabase (snapshot : WalSnapshot) (entry : Option Entry) : Option (Except CliError Unit × Option Entry) :=
  writePlaintextFile faults path (fun file => do
    let run ← snapshot.visitPages (writeSnapshotPage faults path) file
    return (run.1.mapError .visit, run.2)) entry

end Writers

end Veilite.Cli

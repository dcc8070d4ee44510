/-
`main.rs`: the `inspect` command, whose report is written line by line, the dispatch of the three commands, and the
exit status `main` makes of how they end.
-/
import Veilite.Cli.Commands

namespace Veilite.Cli

open Buffer Veilite.Core Traverse Turso

/-! ## Inspect -/

structure InspectArgs where
  cipher : CipherArgs
  inputPath : Path

def validateEncryptedFileSize (fileSize pageSize : Nat) : Except IoError Unit :=
  if fileSize < pageSize then
    .error (.new .invalidData
      s!"encrypted database is shorter than one page for the selected cipher configuration: {fileSize} bytes")
  else if fileSize % pageSize ≠ 0 then
    .error (.new .invalidData s!"encrypted database size {fileSize} is not a multiple of the selected page size {pageSize}")
  else .ok ()

def hashAlgorithmName : HashAlgorithm → String
  | .sha1 => "sha1"
  | .sha256 => "sha256"
  | .sha512 => "sha512"

def CipherPresetArg.number : CipherPresetArg → Nat
  | .v3 => 3
  | .v4 => 4

/-- `presence`: the canonical path is looked at when there is nothing beside the given one. -/
def presence (fs : FsView) (path resolved : Path) (suffix : Bytes) : Except IoError String := do
  let found ← companionExists fs (companion path suffix)
  let found ← if found then pure true else companionExists fs (companion resolved suffix)
  return if found then "present" else "absent"

/-- What `inspect` finds before it writes. -/
structure Inspection where
  config : CipherConfig
  fileSize : Nat
  resolved : Path

section Inspect

variable (fs : FsView) (args : InspectArgs)

/-- The checks of `inspect`, up to its report. -/
def inspectChecks : Except CliError Inspection := do
  let config ← args.cipher.config
  let metadata ← (fs.metadata args.inputPath).mapError fun source =>
    .io (pathIoError "failed to inspect encrypted database" args.inputPath source)
  if ¬ metadata.isFile then
    throw (.io ⟨.invalidInput, [.text "database path is not a file: ", .display args.inputPath]⟩)
  (validateEncryptedFileSize metadata.len config.pageSize).mapError .io
  let resolved ← (fs.canonicalize args.inputPath).mapError fun source =>
    .io (pathIoError "failed to resolve encrypted database" args.inputPath source)
  return ⟨config, metadata.len, resolved⟩

/-- The lines of the report in order; the companions are looked for when their line is due. -/
def inspectLines (found : Inspection) : List (Except IoError Message) :=
  [.ok [.text "path: ", .display args.inputPath]] ++
  (match args.cipher.preset with
    | some preset => [.ok [.text "configuration: preset"], .ok [.text s!"preset: {preset.number}"]]
    | none => [.ok [.text "configuration: custom"]]) ++
  [.ok [.text s!"file size: {found.fileSize} bytes"],
    .ok [.text s!"page size: {found.config.pageSize} bytes"],
    .ok [.text s!"KDF iterations: {found.config.kdfIterations}"],
    .ok [.text s!"KDF algorithm: {hashAlgorithmName found.config.kdfAlgorithm}"],
    .ok [.text s!"HMAC algorithm: {hashAlgorithmName found.config.hmacAlgorithm}"],
    .ok [.text s!"reserve size: {found.config.reserveSize} bytes"],
    .ok [.text s!"page count: {found.fileSize / found.config.pageSize}"],
    (presence fs args.inputPath found.resolved walSuffix).map fun s => [.text s!"WAL: {s}"],
    (presence fs args.inputPath found.resolved journalSuffix).map fun s => [.text s!"journal: {s}"]]

/-- The report from its `n`-th write on: each line is made out, then written. -/
def writeLines (stdout : Nat → Option IoError) : Nat → List (Except IoError Message) → Except IoError Unit
  | _, [] => .ok ()
  | n, line :: rest => match line with
    | .error e => .error e
    | .ok _ => match stdout n with
      | some e => .error e
      | none => writeLines stdout (n + 1) rest

/-- The `inspect` command; the `n`-th write to standard output may fail. -/
def inspect (stdout : Nat → Option IoError) : Except CliError Unit := do
  let found ← inspectChecks fs args
  (writeLines stdout 0 (inspectLines fs args found)).mapError .io

end Inspect

/-! ## Main -/

inductive Command
  | export (args : ExportArgs)
  | inspect (args : InspectArgs)
  | verify (args : VerifyArgs)

/-- `run`: of the reports of `export` and `verify`, the one line is the first write. -/
def run (C : Primitives) (world : World) (stdout : Nat → Option IoError) : Command → Option (Except CliError Unit)
  | .export args => (exportCommand C { world with stdout := stdout 0 } args).map Prod.fst
  | .inspect args => some (inspect world.fs args stdout)
  | .verify args => verify C { world with stdout := stdout 0 } args

/-- `is_broken_pipe`: what is boxed is the I/O error itself, not an error that holds one. -/
def isBrokenPipe : CliError → Bool
  | .io error => error.kind = .brokenPipe
  | _ => false

/-- The exit status of `main`; a panic's is 101. -/
def exitStatus : Option (Except CliError Unit) → Nat
  | none => 101
  | some (.ok ()) => 0
  | some (.error error) => if isBrokenPipe error then 0 else 1

theorem exitStatus_eq_zero_iff {result : Option (Except CliError Unit)} :
    exitStatus result = 0 ↔ result = some (.ok ()) ∨ ∃ e, result = some (.error e) ∧ isBrokenPipe e = true := by
  rcases result with _ | e | _
  · simp [exitStatus]
  · simp [exitStatus]
  · simp [exitStatus]

/-- A broken pipe in an I/O error reaches `main` as it is. -/
theorem isBrokenPipe_io {e : IoError} : isBrokenPipe (.io e) = true ↔ e.kind = .brokenPipe := by
  simp [isBrokenPipe]

end Veilite.Cli

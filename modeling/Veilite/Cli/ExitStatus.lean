/-
What exit status 0 says. `main` takes an I/O error of kind broken pipe for the reader of its report having gone
away, whichever operation it comes from; when it comes from another, the status says nothing.
-/
import Veilite.Cli.Inspect
import Veilite.Cli.Outcome
import Veilite.Cli.Preflight
import Veilite.Cli.Standalone

namespace Veilite.Cli

open Buffer Veilite.Core Traverse Turso

/-! ## What was done -/

section Done

variable (C : Primitives) (world : World) (stdout : Nat → Option IoError)

/-- Every page of the selected image was authenticated. -/
inductive Verified (args : VerifyArgs) : Prop
  | main {reader : SqlCipherReader Unit IoError} (mode : args.wal = false)
    (opened : openReader C world args.inputPath args.cipher args.passphraseFile = .ok reader)
    (read : ∀ pageNo : NonZeroU32, pageNo.get ≤ reader.pageCount → ∃ plain, reader.Reads C pageNo plain)
  | wal {snapshot : WalSnapshot} (mode : args.wal = true)
    (opened : openWalSnapshot C world args.inputPath args.cipher args.passphraseFile = some (.ok snapshot))
    (read : ∀ pageNo : NonZeroU32, pageNo.get ≤ snapshot.pageCount → ∃ bytes, snapshot.selectedPage pageNo = .ok bytes)

/-- The destination holds the complete selected image, made standalone with `--wal`. -/
def Exported (args : ExportArgs) : Prop :=
  ∃ image, Selects C world args image ∧
    (exportCommand C { world with stdout := stdout 0 } args).map Prod.snd =
      some (some (.file (if args.wal then standalone image else image)))

/-- The checks passed, and so did every companion lookup the report got to. -/
def Inspected (args : InspectArgs) : Prop :=
  ∃ found, inspectChecks world.fs args = .ok found ∧ ∀ n e, (inspectLines world.fs args found)[n]? = some (.error e) →
    ∃ m < n, stdout m ≠ none

/-- What exit status 0 is to say: the command did what it is for, and if it failed, then in its report, so that with
a standard output that works it succeeds. -/
def Sound : Command → Prop
  | .verify args => Verified C world args ∧ run C world (fun _ => none) (.verify args) = some (.ok ())
  | .export args => Exported C world stdout args ∧ run C world (fun _ => none) (.export args) = some (.ok ())
  | .inspect args => Inspected world stdout args

end Done

/-! ## What is mistaken for a failed report -/

section Mistaken

variable (C : Primitives) (world : World) (stdout : Nat → Option IoError)

/-- Opening the input fails with a broken pipe, in an operation whose error is not wrapped. -/
inductive OpenMistaken (wal : Bool) (inputPath : Path) (cipher : CipherArgs) (passphraseFile : Option Path) : Prop
  | preflight {config : CipherConfig} {e : IoError} (mode : wal = false) (configured : cipher.config = .ok config)
    (failed : mainPreflight world.fs inputPath = .error e) (kind : e.kind = .brokenPipe)
  | passphrase {config : CipherConfig} {resolved : Path} {e : IoError} (mode : wal = false)
    (configured : cipher.config = .ok config) (checked : mainPreflight world.fs inputPath = .ok resolved)
    (failed : world.passphrase passphraseFile = .error e) (kind : e.kind = .brokenPipe)
  | openFile {config : CipherConfig} {resolved : Path} {passphrase : Bytes} {e : IoError} (mode : wal = false)
    (configured : cipher.config = .ok config) (checked : mainPreflight world.fs inputPath = .ok resolved)
    (answered : world.passphrase passphraseFile = .ok passphrase) (failed : world.fs.openFile resolved = .error e)
    (kind : e.kind = .brokenPipe)
  | walPassphrase {config : CipherConfig} {input : WalInput} {e : IoError} (mode : wal = true)
    (configured : cipher.config = .ok config) (checked : WalInput.open world.fs inputPath = .ok input)
    (failed : world.passphrase passphraseFile = .error e) (kind : e.kind = .brokenPipe)

/-- The destination is there to be created. -/
structure Fresh : Prop where
  create : world.faults.create = none
  destination : world.destination = none

/-- A failed export's file goes away. -/
def Removed (faults : Faults) : Prop := ∀ e, faults.remove = some e → e.kind = .notFound

/-- An export of an opened input fails with a broken pipe: in creating its file, in writing it (with `--wal` the
snapshot wraps that error), in the sync, or in removing it after any failure. -/
inductive ExportMistaken (args : ExportArgs) (opened : Opened) : Prop
  | create {e : IoError} (failed : world.faults.create = some e) (kind : e.kind = .brokenPipe)
  | write {pageNo : NonZeroU32} {written : Nat} {e : IoError} (fresh : Fresh world) (mode : args.wal = false)
    (page : pageNo.get ≤ opened.pageCount)
    (read : ∀ below : NonZeroU32, below.get ≤ pageNo.get → ∃ bytes, opened.page below = .ok bytes)
    (before : ∀ below : NonZeroU32, below.get < pageNo.get → world.faults.write (below.get - 1) = none)
    (failed : world.faults.write (pageNo.get - 1) = some (written, e)) (kind : e.kind = .brokenPipe)
    (removed : Removed world.faults)
  | sync {e : IoError} (fresh : Fresh world)
    (read : ∀ pageNo : NonZeroU32, pageNo.get ≤ opened.pageCount → ∃ bytes, opened.page pageNo = .ok bytes)
    (written : ∀ pageNo : NonZeroU32, pageNo.get ≤ opened.pageCount → world.faults.write (pageNo.get - 1) = none)
    (failed : world.faults.sync = some e) (kind : e.kind = .brokenPipe) (removed : Removed world.faults)
  | remove {e : IoError} (fresh : Fresh world) (incomplete : ¬ Complete world.faults opened)
    (failed : world.faults.remove = some e) (kind : e.kind = .brokenPipe)

/-- A check of `inspect` fails with a broken pipe, or a companion lookup of its report with every line before it
written. -/
inductive InspectMistaken (args : InspectArgs) : Prop
  | metadata {config : CipherConfig} {e : IoError} (configured : args.cipher.config = .ok config)
    (failed : world.fs.metadata args.inputPath = .error e) (kind : e.kind = .brokenPipe)
  | canonicalize {config : CipherConfig} {metadata : Metadata} {e : IoError} (configured : args.cipher.config = .ok config)
    (found : world.fs.metadata args.inputPath = .ok metadata) (file : metadata.isFile = true)
    (size : validateEncryptedFileSize metadata.len config.pageSize = .ok ())
    (failed : world.fs.canonicalize args.inputPath = .error e) (kind : e.kind = .brokenPipe)
  | companions {found : Inspection} {n : Nat} {e : IoError} (checked : inspectChecks world.fs args = .ok found)
    (failed : (inspectLines world.fs args found)[n]? = some (.error e)) (kind : e.kind = .brokenPipe)
    (before : ∀ m < n, (∃ text, (inspectLines world.fs args found)[m]? = some (.ok text)) ∧ stdout m = none)

/-- An operation that is no write of the report ends the run with a broken pipe that reaches `main` as it is. -/
def Mistaken : Command → Prop
  | .verify args => OpenMistaken world args.wal args.inputPath args.cipher args.passphraseFile
  | .export args => OpenMistaken world args.wal args.inputPath args.cipher args.passphraseFile ∨
    ∃ opened, openInput C world args.wal args.inputPath args.cipher args.passphraseFile = some (.ok opened) ∧
      ExportMistaken world args opened
  | .inspect args => InspectMistaken world stdout args

end Mistaken

/-! ## Opening -/

section Opening

variable {C : Primitives} {world : World}

theorem CipherArgs.config_error {cipher : CipherArgs} {e : CliError} (h : cipher.config = .error e) : isBrokenPipe e = false := by
  unfold CipherArgs.config at h
  split at h
  · cases h
  · split at h
    · rcases hnew : CipherConfig.new _ _ _ _ with e' | config
      · rw [hnew] at h
        cases h
        rfl
      · rw [hnew] at h
        cases h
    · cases h
      rfl
  · cases h
    rfl

/-- A failure `main` takes for the report's. -/
def Broken {α : Type} (result : Except CliError α) : Prop := ∃ e, result = .error e ∧ isBrokenPipe e = true

section Broken

variable {α β : Type}

theorem broken_bind {x : Except CliError α} {f : α → Except CliError β} :
    Broken (x >>= f) ↔ Broken x ∨ ∃ a, x = .ok a ∧ Broken (f a) := by
  rcases x with e | a
  · constructor
    · rintro ⟨e', ⟨⟩, he⟩
      exact .inl ⟨e, rfl, he⟩
    · rintro (⟨e', ⟨⟩, he⟩ | ⟨a, ⟨⟩, -⟩)
      exact ⟨e, rfl, he⟩
  · constructor
    · intro h
      exact .inr ⟨a, rfl, h⟩
    · rintro (⟨e, ⟨⟩, -⟩ | ⟨_, ⟨⟩, h⟩)
      exact h

/-- An I/O error is boxed as it is. -/
theorem broken_mapError_io {x : Except IoError α} :
    Broken (x.mapError .io) ↔ ∃ e, x = .error e ∧ e.kind = .brokenPipe := by
  rcases x with e | a
  · constructor
    · rintro ⟨_, ⟨⟩, he⟩
      exact ⟨e, rfl, isBrokenPipe_io.1 he⟩
    · rintro ⟨_, ⟨⟩, he⟩
      exact ⟨_, rfl, isBrokenPipe_io.2 he⟩
  · exact ⟨by rintro ⟨e, ⟨⟩, -⟩, by rintro ⟨e, ⟨⟩, -⟩⟩

/-- `path_io_error` keeps the kind. -/
theorem broken_mapError_pathIoError {x : Except IoError α} {action : String} {path : Path} :
    Broken (x.mapError fun source => .io (pathIoError action path source)) ↔ ∃ e, x = .error e ∧ e.kind = .brokenPipe := by
  rw [← broken_mapError_io]
  unfold Broken pathIoError
  rcases x with e | a
  · simp [Except.mapError, isBrokenPipe_io]
  · simp [Except.mapError]

/-- A wrapped error is never mistaken. -/
theorem not_broken_mapError {ε : Type} {x : Except ε α} {f : ε → CliError} (hf : ∀ e, isBrokenPipe (f e) = false) :
    ¬ Broken (x.mapError f) := by
  rintro ⟨e, he, hbroken⟩
  rcases x with e' | a
  · cases he
    rw [hf] at hbroken
    cases hbroken
  · cases he

theorem not_broken_ok {a : α} : ¬ Broken (.ok a : Except CliError α) := by
  rintro ⟨e, ⟨⟩, -⟩

end Broken

theorem not_broken_config {cipher : CipherArgs} : ¬ Broken cipher.config := by
  rintro ⟨e, he, hbroken⟩
  rw [CipherArgs.config_error he] at hbroken
  cases hbroken

theorem broken_openEncryptedDatabase {path : Path} :
    Broken ((openEncryptedDatabase world path).mapError .io) ↔ ∃ e, world.fs.openFile path = .error e ∧ e.kind = .brokenPipe := by
  have hwrap : ((openEncryptedDatabase world path).mapError CliError.io) =
      (world.fs.openFile path).mapError fun e => .io (pathIoError "failed to open encrypted database" path e) := by
    unfold openEncryptedDatabase
    rcases world.fs.openFile path with e | source
    · rfl
    · rfl
  rw [hwrap]
  exact broken_mapError_pathIoError

/-- A bare broken pipe from `open_reader`. -/
theorem openReader_broken_iff {inputPath : Path} {cipher : CipherArgs} {passphraseFile : Option Path} :
    Broken (openReader C world inputPath cipher passphraseFile) ↔ OpenMistaken world false inputPath cipher passphraseFile := by
  have hreader : ∀ e : ReaderError IoError, isBrokenPipe (.reader e) = false := fun e => rfl
  rw [openReader_eq]
  constructor
  · intro h
    obtain ⟨config, hconfig, h⟩ := (broken_bind.1 h).resolve_left not_broken_config
    rcases broken_bind.1 h with hpreflight | ⟨resolved, hresolved, h⟩
    · obtain ⟨e, he, hkind⟩ := broken_mapError_io.1 hpreflight
      exact .preflight rfl hconfig he hkind
    rw [mapError_eq_ok_iff] at hresolved
    rcases broken_bind.1 h with hpassphrase | ⟨passphrase, hpassphrase, h⟩
    · obtain ⟨e, he, hkind⟩ := broken_mapError_io.1 hpassphrase
      exact .passphrase rfl hconfig hresolved he hkind
    rw [mapError_eq_ok_iff] at hpassphrase
    rcases broken_bind.1 h with hfile | ⟨source, -, h⟩
    · obtain ⟨e, he, hkind⟩ := broken_openEncryptedDatabase.1 hfile
      exact .openFile rfl hconfig hresolved hpassphrase he hkind
    · exact absurd h (not_broken_mapError hreader)
  · rintro (⟨-, hconfig, he, hkind⟩ | ⟨-, hconfig, hresolved, he, hkind⟩ |
      ⟨-, hconfig, hresolved, hpassphrase, he, hkind⟩ | ⟨hmode, -, -, -, -⟩)
    · rw [hconfig]
      refine broken_bind.2 (.inr ⟨_, rfl, broken_bind.2 (.inl ?_)⟩)
      exact broken_mapError_io.2 ⟨_, he, hkind⟩
    · rw [hconfig, hresolved]
      refine broken_bind.2 (.inr ⟨_, rfl, broken_bind.2 (.inr ⟨_, rfl, broken_bind.2 (.inl ?_)⟩)⟩)
      exact broken_mapError_io.2 ⟨_, he, hkind⟩
    · rw [hconfig, hresolved, hpassphrase]
      refine broken_bind.2 (.inr ⟨_, rfl, broken_bind.2 (.inr ⟨_, rfl, broken_bind.2 (.inr ⟨_, rfl, broken_bind.2 (.inl ?_)⟩)⟩)⟩)
      exact broken_openEncryptedDatabase.2 ⟨_, he, hkind⟩
    · cases hmode

/-- A bare broken pipe from `open_wal_snapshot`: the checks and the engine wrap theirs. -/
theorem openWalSnapshot_broken_iff {inputPath : Path} {cipher : CipherArgs} {passphraseFile : Option Path} :
    (∃ e, openWalSnapshot C world inputPath cipher passphraseFile = some (.error e) ∧ isBrokenPipe e = true) ↔
      OpenMistaken world true inputPath cipher passphraseFile := by
  unfold openWalSnapshot
  constructor
  · rintro ⟨e, he, hbroken⟩
    rcases hconfig : cipher.config with e' | config
    · rw [hconfig] at he
      cases he
      rw [CipherArgs.config_error hconfig] at hbroken
      cases hbroken
    rcases hinput : WalInput.open world.fs inputPath with e' | input
    · rw [hconfig, hinput] at he
      cases he
      cases hbroken
    rcases hpassphrase : world.passphrase passphraseFile with e' | passphrase
    · rw [hconfig, hinput, hpassphrase] at he
      cases he
      exact .walPassphrase rfl hconfig hinput hpassphrase (isBrokenPipe_io.1 hbroken)
    rw [hconfig, hinput, hpassphrase] at he
    change (do let opened ← input.snapshot C world.fs world.engine config passphrase emptyRegistry; _) = _ at he
    rcases hopened : input.snapshot C world.fs world.engine config passphrase emptyRegistry with _ | ⟨e' | snapshot, registry⟩
    · rw [hopened] at he
      cases he
    · rw [hopened] at he
      cases he
      cases hbroken
    · rw [hopened] at he
      cases he
  · rintro (⟨hmode, -, -, -⟩ | ⟨hmode, -, -, -, -⟩ | ⟨hmode, -, -, -, -, -⟩ | ⟨-, hconfig, hinput, he, hkind⟩)
    · cases hmode
    · cases hmode
    · cases hmode
    · rw [hconfig, hinput, he]
      exact ⟨_, rfl, isBrokenPipe_io.2 hkind⟩

theorem openInput_broken_iff {wal : Bool} {inputPath : Path} {cipher : CipherArgs} {passphraseFile : Option Path} :
    (∃ e, openInput C world wal inputPath cipher passphraseFile = some (.error e) ∧ isBrokenPipe e = true) ↔
      OpenMistaken world wal inputPath cipher passphraseFile := by
  unfold openInput
  cases wal with
  | true =>
    rw [if_pos rfl, ← openWalSnapshot_broken_iff (C := C)]
    rcases openWalSnapshot C world inputPath cipher passphraseFile with _ | e | snapshot
    · simp
    · simp [Except.map]
    · simp [Except.map]
  | false =>
    rw [if_neg Bool.false_ne_true, ← openReader_broken_iff (C := C)]
    unfold Broken
    rcases openReader C world inputPath cipher passphraseFile with e | reader
    · simp [Except.map]
    · simp [Except.map]

/-- The pages' own errors are wrapped. -/
theorem not_broken_page {wal : Bool} {inputPath : Path} {cipher : CipherArgs} {passphraseFile : Option Path}
    {opened : Opened} (h : openInput C world wal inputPath cipher passphraseFile = some (.ok opened)) (pageNo : NonZeroU32) :
    ¬ Broken (opened.page pageNo) := by
  rcases openInput_eq_ok h with ⟨snapshot, -, -, rfl⟩ | ⟨reader, -, -, rfl⟩
  · exact not_broken_mapError fun e => rfl
  · exact not_broken_mapError fun e => rfl

end Opening

/-! ## Writing -/

section Writing

variable {C : Primitives} {world : World} {args : ExportArgs} {opened : Opened}

theorem broken_writeOutcome_iff {pageNo : NonZeroU32} (hpage : ¬ Broken (opened.page pageNo)) :
    Broken (writeOutcome opened.page world.faults (exportWriteError args) pageNo) ↔ args.wal = false ∧
      (∃ bytes, opened.page pageNo = .ok bytes) ∧
      ∃ written e, world.faults.write (pageNo.get - 1) = some (written, e) ∧ e.kind = .brokenPipe := by
  unfold writeOutcome
  rcases hread : opened.page pageNo with e | bytes
  · constructor
    · rintro ⟨e', ⟨⟩, hbroken⟩
      exact absurd ⟨e, hread, hbroken⟩ hpage
    · rintro ⟨-, ⟨bytes, ⟨⟩⟩, -⟩
  rcases world.faults.write (pageNo.get - 1) with _ | ⟨written, e⟩
  · exact ⟨by rintro ⟨e, ⟨⟩, -⟩, by rintro ⟨-, -, written, e, ⟨⟩, -⟩⟩
  unfold exportWriteError
  cases hwal : args.wal with
  | true => exact ⟨by rintro ⟨e, ⟨⟩, ⟨⟩⟩, by rintro ⟨⟨⟩, -⟩⟩
  | false =>
    constructor
    · rintro ⟨_, ⟨⟩, hbroken⟩
      exact ⟨rfl, ⟨bytes, rfl⟩, written, e, rfl, isBrokenPipe_io.1 hbroken⟩
    · rintro ⟨-, -, _, _, ⟨⟩, hkind⟩
      exact ⟨_, rfl, isBrokenPipe_io.2 hkind⟩

/-- The pages end with a broken pipe at the first write that fails, if that does. -/
theorem broken_writes_iff (hpage : ∀ pageNo, ¬ Broken (opened.page pageNo)) :
    Broken ((pageNumbers opened.pageCount).mapM (writeOutcome opened.page world.faults (exportWriteError args))) ↔
      args.wal = false ∧ ∃ pageNo : NonZeroU32, pageNo.get ≤ opened.pageCount ∧
        (∀ below : NonZeroU32, below.get ≤ pageNo.get → ∃ bytes, opened.page below = .ok bytes) ∧
        (∀ below : NonZeroU32, below.get < pageNo.get → world.faults.write (below.get - 1) = none) ∧
        ∃ written e, world.faults.write (pageNo.get - 1) = some (written, e) ∧ e.kind = .brokenPipe := by
  constructor
  · rintro ⟨e, he, hbroken⟩
    obtain ⟨pageNo, hle, hbelow, he⟩ := (mapM_pageNumbers_eq_error_iff opened.pageCount_lt).1 he
    obtain ⟨hmode, hread, hwrite⟩ := (broken_writeOutcome_iff (hpage pageNo)).1 ⟨e, he, hbroken⟩
    refine ⟨hmode, pageNo, hle, fun below hle => ?_, fun below hlt => (writeOutcome_eq_ok_iff.1 (hbelow below hlt)).2, hwrite⟩
    rcases Nat.lt_or_eq_of_le hle with hlt | heq
    · exact (writeOutcome_eq_ok_iff.1 (hbelow below hlt)).1
    · rw [NonZeroU32.ext heq]
      exact hread
  · rintro ⟨hmode, pageNo, hle, hread, hbefore, hwrite⟩
    obtain ⟨e, he, hbroken⟩ := (broken_writeOutcome_iff (hpage pageNo)).2 ⟨hmode, hread pageNo le_rfl, hwrite⟩
    refine ⟨e, (mapM_pageNumbers_eq_error_iff opened.pageCount_lt).2 ⟨pageNo, hle, fun below hlt => ?_, he⟩, hbroken⟩
    exact writeOutcome_eq_ok_iff.2 ⟨hread below (Nat.le_of_lt hlt), hbefore below hlt⟩

theorem broken_exportVerdict_iff :
    Broken (exportVerdict world args opened) ↔
      Broken ((pageNumbers opened.pageCount).mapM (writeOutcome opened.page world.faults (exportWriteError args))) ∨
      (∀ pageNo : NonZeroU32, pageNo.get ≤ opened.pageCount → ∃ bytes, opened.page pageNo = .ok bytes) ∧
      (∀ pageNo : NonZeroU32, pageNo.get ≤ opened.pageCount → world.faults.write (pageNo.get - 1) = none) ∧
      ∃ e, world.faults.sync = some e ∧ e.kind = .brokenPipe := by
  have hwritten : (∃ outcomes, (pageNumbers opened.pageCount).mapM
      (writeOutcome opened.page world.faults (exportWriteError args)) = .ok outcomes) ↔ _ := mapM_pageNumbers_ok_iff
  simp only [writeOutcome_eq_ok_iff] at hwritten
  unfold exportVerdict syncAfter
  rcases hpages : (pageNumbers opened.pageCount).mapM (writeOutcome opened.page world.faults (exportWriteError args)) with
    e | outcomes
  · constructor
    · rintro ⟨_, ⟨⟩, hbroken⟩
      exact .inl ⟨e, rfl, hbroken⟩
    · rintro (⟨_, ⟨⟩, hbroken⟩ | ⟨hread, hwrite, -⟩)
      · exact ⟨e, rfl, hbroken⟩
      · obtain ⟨outcomes, houtcomes⟩ := hwritten.2 fun pageNo hle => ⟨hread pageNo hle, hwrite pageNo hle⟩
        rw [hpages] at houtcomes
        cases houtcomes
  have hall := hwritten.1 ⟨outcomes, hpages⟩
  rcases world.faults.sync with _ | source
  · constructor
    · rintro ⟨e, ⟨⟩, -⟩
    · rintro (⟨e, ⟨⟩, -⟩ | ⟨-, -, e, ⟨⟩, -⟩)
  · constructor
    · rintro ⟨_, ⟨⟩, hbroken⟩
      exact .inr ⟨fun pageNo hle => (hall pageNo hle).1, fun pageNo hle => (hall pageNo hle).2, source, rfl,
        isBrokenPipe_io.1 hbroken⟩
    · rintro (⟨e, ⟨⟩, -⟩ | ⟨-, -, _, ⟨⟩, hkind⟩)
      exact ⟨_, rfl, isBrokenPipe_io.2 hkind⟩

/-- Cleaning up hands on the failure, or its own when the file stays. -/
theorem isBrokenPipe_cleanup {faults : Faults} {path : Path} {e : CliError} {entry : Option Entry} :
    isBrokenPipe (cleanupFailedExport faults path e entry).1 = true ↔
      isBrokenPipe e = true ∧ Removed faults ∨ ∃ cleanupError, faults.remove = some cleanupError ∧ cleanupError.kind = .brokenPipe := by
  unfold cleanupFailedExport removeFile Removed
  rcases faults.remove with _ | cleanupError
  · simp
  by_cases hkind : cleanupError.kind = .notFound
  · simp [hkind]
  · simp [hkind, leftoverError, isBrokenPipe_io]

/-- `write_plaintext_file` ends with a broken pipe in the creation, in its writer, or in the removal. -/
theorem broken_destinationEnd_iff {faults : Faults} {path : Path} {prior : Option Entry} {verdict : Except CliError Unit}
    {content : Bytes} :
    Broken (destinationEnd faults path prior verdict content).1 ↔
      (∃ e, faults.create = some e ∧ e.kind = .brokenPipe) ∨
      (faults.create = none ∧ prior = none) ∧
        (Broken verdict ∧ Removed faults ∨
          verdict ≠ .ok () ∧ ∃ cleanupError, faults.remove = some cleanupError ∧ cleanupError.kind = .brokenPipe) := by
  unfold destinationEnd createNew
  rcases faults.create with _ | source
  · rcases prior with _ | entry
    · rcases verdict with e | _
      · constructor
        · rintro ⟨_, ⟨⟩, hbroken⟩
          refine .inr ⟨⟨rfl, rfl⟩, ?_⟩
          rcases isBrokenPipe_cleanup.1 hbroken with ⟨he, hremoved⟩ | hremove
          · exact .inl ⟨⟨e, rfl, he⟩, hremoved⟩
          · exact .inr ⟨by rintro ⟨⟩, hremove⟩
        · rintro (⟨_, ⟨⟩, -⟩ | ⟨-, ⟨⟨_, ⟨⟩, he⟩, hremoved⟩ | ⟨-, hremove⟩⟩)
          · exact ⟨_, rfl, isBrokenPipe_cleanup.2 (.inl ⟨he, hremoved⟩)⟩
          · exact ⟨_, rfl, isBrokenPipe_cleanup.2 (.inr hremove)⟩
      · constructor
        · rintro ⟨e, ⟨⟩, -⟩
        · rintro (⟨_, ⟨⟩, -⟩ | ⟨-, ⟨⟨_, ⟨⟩, -⟩, -⟩ | ⟨hne, -⟩⟩)
          exact absurd rfl hne
    · constructor
      · rintro ⟨_, ⟨⟩, ⟨⟩⟩
      · rintro (⟨_, ⟨⟩, -⟩ | ⟨⟨-, ⟨⟩⟩, -⟩)
  · constructor
    · rintro ⟨_, ⟨⟩, hbroken⟩
      exact .inl ⟨source, rfl, isBrokenPipe_io.1 hbroken⟩
    · rintro (⟨_, ⟨⟩, hkind⟩ | ⟨⟨⟨⟩, -⟩, -⟩)
      exact ⟨_, rfl, isBrokenPipe_io.2 hkind⟩

/-- An export of an opened input is mistaken for one whose report failed. -/
theorem broken_exportEnd_iff (hpage : ∀ pageNo, ¬ Broken (opened.page pageNo)) (content : Bytes) :
    Broken (exportEnd world args opened content).1 ↔ ExportMistaken world args opened := by
  unfold exportEnd
  rw [broken_destinationEnd_iff, broken_exportVerdict_iff, broken_writes_iff hpage, Ne, exportVerdict_eq_ok_iff]
  constructor
  · rintro (⟨e, he, hkind⟩ | ⟨⟨hcreate, hprior⟩, ⟨⟨hmode, pageNo, hle, hread, hbefore, written, e, he, hkind⟩ |
      ⟨hread, hwrite, e, he, hkind⟩, hremoved⟩ | ⟨hincomplete, e, he, hkind⟩⟩)
    · exact .create he hkind
    · exact .write ⟨hcreate, hprior⟩ hmode hle hread hbefore he hkind hremoved
    · exact .sync ⟨hcreate, hprior⟩ hread hwrite he hkind hremoved
    · exact .remove ⟨hcreate, hprior⟩ hincomplete he hkind
  · rintro (⟨he, hkind⟩ | ⟨hfresh, hmode, hle, hread, hbefore, he, hkind, hremoved⟩ | ⟨hfresh, hread, hwrite, he, hkind, hremoved⟩ |
      ⟨hfresh, hincomplete, he, hkind⟩)
    · exact .inl ⟨_, he, hkind⟩
    · exact .inr ⟨⟨hfresh.create, hfresh.destination⟩, .inl ⟨.inl ⟨hmode, _, hle, hread, hbefore, _, _, he, hkind⟩, hremoved⟩⟩
    · exact .inr ⟨⟨hfresh.create, hfresh.destination⟩, .inl ⟨.inr ⟨hread, hwrite, _, he, hkind⟩, hremoved⟩⟩
    · exact .inr ⟨⟨hfresh.create, hfresh.destination⟩, .inr ⟨hincomplete, _, he, hkind⟩⟩

end Writing

/-! ## Inspecting -/

section Inspecting

variable {world : World} {stdout : Nat → Option IoError} {args : InspectArgs}

theorem not_broken_validate {fileSize pageSize : Nat} : ¬ Broken ((validateEncryptedFileSize fileSize pageSize).mapError .io) := by
  unfold validateEncryptedFileSize
  split
  · rintro ⟨_, ⟨⟩, ⟨⟩⟩
  · split
    · rintro ⟨_, ⟨⟩, ⟨⟩⟩
    · exact not_broken_ok

theorem broken_guard {α : Type} {c : Prop} [Decidable c] {e : CliError} {f : PUnit → Except CliError α}
    (he : isBrokenPipe e = false) : Broken (if c then throw e >>= f else f ⟨⟩) ↔ ¬ c ∧ Broken (f ⟨⟩) := by
  by_cases hc : c
  · rw [if_pos hc]
    constructor
    · rintro ⟨_, ⟨⟩, hbroken⟩
      rw [he] at hbroken
      cases hbroken
    · exact fun h => absurd hc h.1
  · rw [if_neg hc]
    exact ⟨fun h => ⟨hc, h⟩, fun h => h.2⟩

theorem broken_inspectChecks_iff :
    Broken (inspectChecks world.fs args) ↔
      (∃ config e, args.cipher.config = .ok config ∧ world.fs.metadata args.inputPath = .error e ∧ e.kind = .brokenPipe) ∨
      ∃ config metadata e, args.cipher.config = .ok config ∧ world.fs.metadata args.inputPath = .ok metadata ∧
        metadata.isFile = true ∧ validateEncryptedFileSize metadata.len config.pageSize = .ok () ∧
        world.fs.canonicalize args.inputPath = .error e ∧ e.kind = .brokenPipe := by
  unfold inspectChecks
  constructor
  · intro h
    obtain ⟨config, hconfig, h⟩ := (broken_bind.1 h).resolve_left not_broken_config
    rcases broken_bind.1 h with hmetadata | ⟨metadata, hmetadata, h⟩
    · obtain ⟨e, he, hkind⟩ := broken_mapError_pathIoError.1 hmetadata
      exact .inl ⟨config, e, hconfig, he, hkind⟩
    rw [mapError_eq_ok_iff] at hmetadata
    obtain ⟨hfile, h⟩ := (broken_guard rfl).1 h
    obtain ⟨_, hsize, h⟩ := (broken_bind.1 h).resolve_left not_broken_validate
    rw [mapError_eq_ok_iff] at hsize
    rcases broken_bind.1 h with hcanonicalize | ⟨resolved, -, h⟩
    · obtain ⟨e, he, hkind⟩ := broken_mapError_pathIoError.1 hcanonicalize
      exact .inr ⟨config, metadata, e, hconfig, hmetadata, not_not.1 hfile, hsize, he, hkind⟩
    · exact absurd h not_broken_ok
  · rintro (⟨config, e, hconfig, he, hkind⟩ | ⟨config, metadata, e, hconfig, hmetadata, hfile, hsize, he, hkind⟩)
    · refine broken_bind.2 (.inr ⟨config, hconfig, broken_bind.2 (.inl ?_)⟩)
      exact broken_mapError_pathIoError.2 ⟨e, he, hkind⟩
    · refine broken_bind.2 (.inr ⟨config, hconfig, broken_bind.2 (.inr ⟨metadata, mapError_eq_ok_iff.2 hmetadata, ?_⟩)⟩)
      refine (broken_guard rfl).2 ⟨not_not.2 hfile, broken_bind.2 (.inr ⟨(), mapError_eq_ok_iff.2 hsize, broken_bind.2 (.inl ?_)⟩)⟩
      exact broken_mapError_pathIoError.2 ⟨e, he, hkind⟩

/-- The report stops at the first line that cannot be made out or written. -/
theorem writeLines_eq_error_iff {e : IoError} : ∀ {lines : List (Except IoError Message)} {n : Nat},
    writeLines stdout n lines = .error e ↔ ∃ i, (∀ m < i, (∃ text, lines[m]? = some (.ok text)) ∧ stdout (n + m) = none) ∧
      (lines[i]? = some (.error e) ∨ (∃ text, lines[i]? = some (.ok text)) ∧ stdout (n + i) = some e)
  | [], n => by simp [writeLines]
  | .error e' :: rest, n => by
    rw [exists_first_iff]
    simp [writeLines]
  | .ok text :: rest, n => by
    rw [exists_first_iff]
    unfold writeLines
    rcases stdout n with _ | e'
    · dsimp only
      rw [writeLines_eq_error_iff]
      simp [← Nat.add_assoc, Nat.add_right_comm n 1]
    · simp

/-- A complete report made out every line. -/
theorem writeLines_eq_ok {lines : List (Except IoError Message)} {n : Nat} (h : writeLines stdout n lines = .ok ())
    {e : IoError} : .error e ∉ lines := by
  induction lines generalizing n with
  | nil => exact List.not_mem_nil
  | cons line rest ih =>
    unfold writeLines at h
    rcases line with e' | text
    · cases h
    rcases hstdout : stdout n with _ | e'
    · rw [hstdout] at h
      rw [List.mem_cons, not_or]
      exact ⟨by rintro ⟨⟩, ih h⟩
    · rw [hstdout] at h
      cases h

end Inspecting

/-! ## Exit status 0 -/

section ExitStatus

variable {C : Primitives} {world : World} {stdout : Nat → Option IoError}

theorem exitStatus_error {e : CliError} : exitStatus (some (.error e)) = 0 ↔ isBrokenPipe e = true := by
  simp [exitStatus]

theorem exitStatus_mapError_io {x : Except IoError Unit} :
    exitStatus (some (x.mapError .io)) = 0 ↔ x = .ok () ∨ ∃ e, x = .error e ∧ e.kind = .brokenPipe := by
  rw [exitStatus_eq_zero_iff]
  rcases x with e | _
  · simp [Except.mapError, isBrokenPipe_io]
  · simp [Except.mapError]

/-- When the run fails whatever standard output does, the status is sound if the failure is not mistaken. -/
theorem sound_error_iff {e : CliError} {done : Prop} :
    (exitStatus (some (.error e)) = 0 → done ∧ (some (.error e) : Option (Except CliError Unit)) = some (.ok ())) ↔
      isBrokenPipe e = false := by
  rw [exitStatus_error]
  constructor
  · intro h
    rcases hbroken : isBrokenPipe e with _ | _
    · rfl
    · obtain ⟨-, ⟨⟩⟩ := h hbroken
  · intro h hbroken
    rw [h] at hbroken
    cases hbroken

theorem verified_of_openInput {args : VerifyArgs} {opened : Opened}
    (h : openInput C world args.wal args.inputPath args.cipher args.passphraseFile = some (.ok opened))
    (hread : ∀ pageNo : NonZeroU32, pageNo.get ≤ opened.pageCount → ∃ bytes, opened.page pageNo = .ok bytes) :
    Verified C world args := by
  rcases openInput_eq_ok h with ⟨snapshot, hwal, hopen, rfl⟩ | ⟨reader, hwal, hopen, rfl⟩
  · refine .wal hwal hopen fun pageNo hle => ?_
    obtain ⟨bytes, hbytes⟩ := hread pageNo hle
    exact ⟨bytes, mapError_eq_ok_iff.1 hbytes⟩
  · refine .main hwal hopen fun pageNo hle => ?_
    obtain ⟨bytes, hbytes⟩ := hread pageNo hle
    exact ⟨bytes, (readerPage_eq_ok_iff C).1 hbytes⟩

theorem verify_sound_iff {args : VerifyArgs} :
    (exitStatus (run C world stdout (.verify args)) = 0 →
      Verified C world args ∧ run C world (fun _ => none) (.verify args) = some (.ok ())) ↔
      ¬ OpenMistaken world args.wal args.inputPath args.cipher args.passphraseFile := by
  have hrun : ∀ stdout, run C world stdout (.verify args) =
      (openInput C world args.wal args.inputPath args.cipher args.passphraseFile).map fun opened =>
        opened >>= fun opened => (pageNumbers opened.pageCount).mapM opened.page >>= fun _ => report { world with stdout := stdout 0 } :=
    fun stdout => verify_eq_map args
  rw [← openInput_broken_iff (C := C), hrun, hrun]
  rcases hopen : openInput C world args.wal args.inputPath args.cipher args.passphraseFile with _ | e | opened
  · simp [exitStatus]
  · refine sound_error_iff.trans ?_
    simp
  · change (exitStatus (some ((pageNumbers opened.pageCount).mapM opened.page >>= fun _ => report { world with stdout := stdout 0 })) =
      0 → _ ∧ some ((pageNumbers opened.pageCount).mapM opened.page >>= fun _ => report { world with stdout := none }) = _) ↔ _
    rcases hpages : (pageNumbers opened.pageCount).mapM opened.page with e | pages
    · obtain ⟨pageNo, -, -, he⟩ := (mapM_pageNumbers_eq_error_iff opened.pageCount_lt).1 hpages
      have hwrapped : isBrokenPipe e = false := by
        rw [← Bool.not_eq_true]
        exact fun hbroken => not_broken_page hopen pageNo ⟨e, he, hbroken⟩
      exact ⟨by rintro - ⟨_, ⟨⟩, -⟩, fun _ => sound_error_iff.2 hwrapped⟩
    · refine ⟨by rintro - ⟨_, ⟨⟩, -⟩, fun _ _ => ⟨verified_of_openInput hopen ?_, rfl⟩⟩
      exact mapM_pageNumbers_ok_iff.1 ⟨pages, hpages⟩

theorem export_sound_iff {args : ExportArgs} :
    (exitStatus (run C world stdout (.export args)) = 0 →
      Exported C world stdout args ∧ run C world (fun _ => none) (.export args) = some (.ok ())) ↔
      ¬ (OpenMistaken world args.wal args.inputPath args.cipher args.passphraseFile ∨
        ∃ opened, openInput C world args.wal args.inputPath args.cipher args.passphraseFile = some (.ok opened) ∧
          ExportMistaken world args opened) := by
  obtain ⟨content, hexport⟩ := exportCommand_eq C world args
  have hrun : ∀ stdout, run C world stdout (.export args) =
      (exportCommand C { world with stdout := stdout 0 } args).map Prod.fst := fun stdout => rfl
  rw [← openInput_broken_iff (C := C), hrun, hrun, hexport, hexport]
  rcases hopen : openInput C world args.wal args.inputPath args.cipher args.passphraseFile with _ | e | opened
  · simp [exitStatus]
  · refine sound_error_iff.trans ?_
    simp
  have hmistaken : Broken (exportEnd world args opened content).1 ↔
      (∃ e, (some (.ok opened) : Option (Except CliError Opened)) = some (.error e) ∧ isBrokenPipe e = true) ∨
        ∃ opened', (some (.ok opened) : Option (Except CliError Opened)) = some (.ok opened') ∧ ExportMistaken world args opened' := by
    rw [broken_exportEnd_iff (not_broken_page hopen) content]
    constructor
    · exact fun h => .inr ⟨opened, rfl, h⟩
    · rintro (⟨e, ⟨⟩, -⟩ | ⟨_, ⟨⟩, h⟩)
      exact h
  rw [← hmistaken]
  simp only [Option.map_some]
  rcases hend : (exportEnd world args opened content).1 with e | _
  · refine sound_error_iff.trans ?_
    unfold Broken
    simp
  · refine ⟨fun _ => not_broken_ok, fun _ _ => ⟨?_, rfl⟩⟩
    -- the same run with nothing wrong on standard output
    have hquiet := hexport none
    rw [hopen] at hquiet
    simp only [Option.map_some, hend] at hquiet
    obtain ⟨image, hselects, -, hentry⟩ := exportCommand_content C { world with stdout := none } hquiet
    refine ⟨image, ?_, ?_⟩
    · cases hselects with
      | main mode opened visited => exact .main mode opened visited
      | wal mode opened visited => exact .wal mode opened visited
    · rw [hexport, hopen]
      simp only [Option.map_some, hentry]

/-- A check that fails is mistaken when its error is a bare broken pipe. -/
theorem inspectMistaken_error_iff {args : InspectArgs} {e : CliError} (hchecks : inspectChecks world.fs args = .error e) :
    InspectMistaken world stdout args ↔ isBrokenPipe e = true := by
  have hbroken : Broken (inspectChecks world.fs args) ↔ isBrokenPipe e = true := by
    rw [hchecks]
    constructor
    · rintro ⟨_, ⟨⟩, hpipe⟩
      exact hpipe
    · exact fun hpipe => ⟨e, rfl, hpipe⟩
  rw [← hbroken, broken_inspectChecks_iff]
  constructor
  · rintro (⟨hconfig, he, hkind⟩ | ⟨hconfig, hfound, hfile, hsize, he, hkind⟩ | ⟨hfound, -, -, -⟩)
    · exact .inl ⟨_, _, hconfig, he, hkind⟩
    · exact .inr ⟨_, _, _, hconfig, hfound, hfile, hsize, he, hkind⟩
    · rw [hchecks] at hfound
      cases hfound
  · rintro (⟨_, _, hconfig, he, hkind⟩ | ⟨_, _, _, hconfig, hfound, hfile, hsize, he, hkind⟩)
    · exact .metadata hconfig he hkind
    · exact .canonicalize hconfig hfound hfile hsize he hkind

/-- Past the checks only a companion lookup can be mistaken. -/
theorem inspectMistaken_ok_iff {args : InspectArgs} {found : Inspection} (hchecks : inspectChecks world.fs args = .ok found) :
    InspectMistaken world stdout args ↔ ∃ n e, (inspectLines world.fs args found)[n]? = some (.error e) ∧
      e.kind = .brokenPipe ∧ ∀ m < n, (∃ text, (inspectLines world.fs args found)[m]? = some (.ok text)) ∧ stdout m = none := by
  have hok : ¬ Broken (inspectChecks world.fs args) := by
    rw [hchecks]
    exact not_broken_ok
  rw [broken_inspectChecks_iff, not_or] at hok
  constructor
  · rintro (⟨hconfig, he, hkind⟩ | ⟨hconfig, hfound, hfile, hsize, he, hkind⟩ | ⟨hfound, hline, hkind, hbefore⟩)
    · exact absurd ⟨_, _, hconfig, he, hkind⟩ hok.1
    · exact absurd ⟨_, _, _, hconfig, hfound, hfile, hsize, he, hkind⟩ hok.2
    · rw [hchecks] at hfound
      cases hfound
      exact ⟨_, _, hline, hkind, hbefore⟩
  · rintro ⟨n, e, hline, hkind, hbefore⟩
    exact .companions hchecks hline hkind hbefore

/-- A report that ends in status 0 got to no line that cannot be made out, unless that line's error is the broken pipe. -/
theorem writeLines_sound_iff {lines : List (Except IoError Message)} :
    (exitStatus (some ((writeLines stdout 0 lines).mapError .io)) = 0 →
      ∀ n e, lines[n]? = some (.error e) → ∃ m < n, stdout m ≠ none) ↔
      ¬ ∃ n e, lines[n]? = some (.error e) ∧ e.kind = .brokenPipe ∧
        ∀ m < n, (∃ text, lines[m]? = some (.ok text)) ∧ stdout m = none := by
  constructor
  · rintro h ⟨n, e, hline, hkind, hbefore⟩
    have hstop : writeLines stdout 0 lines = .error e := by
      refine writeLines_eq_error_iff.2 ⟨n, fun m hm => ?_, .inl hline⟩
      rw [Nat.zero_add]
      exact hbefore m hm
    obtain ⟨m, hm, hfail⟩ := h (exitStatus_mapError_io.2 (.inr ⟨e, hstop, hkind⟩)) n e hline
    exact hfail (hbefore m hm).2
  · intro h hstatus n e hline
    by_contra hwrites
    push Not at hwrites
    rcases exitStatus_mapError_io.1 hstatus with hcomplete | ⟨e', hstopped, hkind⟩
    · exact writeLines_eq_ok hcomplete (List.mem_of_getElem? hline)
    obtain ⟨i, hbefore, hstop⟩ := writeLines_eq_error_iff.1 hstopped
    simp only [Nat.zero_add] at hbefore hstop
    rcases hstop with hline' | ⟨⟨text, htext⟩, hwrite⟩
    · exact h ⟨i, e', hline', hkind, hbefore⟩
    -- the failed write comes at line `n` or later, and every line up to it was made out
    have hle : n ≤ i := by
      by_contra hlt
      rw [hwrites i (Nat.lt_of_not_le hlt)] at hwrite
      cases hwrite
    rcases Nat.lt_or_eq_of_le hle with hlt | rfl
    · obtain ⟨⟨text', htext'⟩, -⟩ := hbefore n hlt
      rw [hline] at htext'
      cases htext'
    · rw [hline] at htext
      cases htext

theorem inspect_sound_iff {args : InspectArgs} :
    (exitStatus (run C world stdout (.inspect args)) = 0 → Inspected world stdout args) ↔
      ¬ InspectMistaken world stdout args := by
  have hrun : run C world stdout (.inspect args) = some (inspectChecks world.fs args >>= fun found =>
    (writeLines stdout 0 (inspectLines world.fs args found)).mapError .io) := rfl
  rw [hrun]
  rcases hchecks : inspectChecks world.fs args with e | found
  · have hnot : ¬ Inspected world stdout args := by
      rintro ⟨found, hfound, -⟩
      rw [hchecks] at hfound
      cases hfound
    rw [inspectMistaken_error_iff hchecks]
    exact ⟨fun h hpipe => hnot (h (exitStatus_error.2 hpipe)), fun h hstatus => absurd (exitStatus_error.1 hstatus) h⟩
  · have hinspected : Inspected world stdout args ↔ ∀ n e, (inspectLines world.fs args found)[n]? = some (.error e) →
        ∃ m < n, stdout m ≠ none := by
      constructor
      · rintro ⟨found', hfound', hlines⟩
        rw [hchecks] at hfound'
        cases hfound'
        exact hlines
      · exact fun hlines => ⟨found, hchecks, hlines⟩
    rw [inspectMistaken_ok_iff hchecks, hinspected]
    exact writeLines_sound_iff

/-- Exit status 0 is sound exactly in the runs in which no operation but a write of the report ends with a broken
pipe that reaches `main` as it is. -/
theorem exit_zero_sound_iff (C : Primitives) (world : World) (stdout : Nat → Option IoError) (command : Command) :
    (exitStatus (run C world stdout command) = 0 → Sound C world stdout command) ↔ ¬ Mistaken C world stdout command := by
  cases command with
  | «export» args => exact export_sound_iff
  | inspect args => exact inspect_sound_iff
  | verify args => exact verify_sound_iff

end ExitStatus

/-! ## Broken pipes that are not the report's -/

/-- The one-page database, exported to where the first write fails with a broken pipe. -/
def brokenDestination : World := { World.of samplePage with
  faults := { (World.of samplePage).faults with
    write := fun n => if n = 0 then some (0, .new .brokenPipe "Broken pipe (os error 32)") else none } }

/-- The one-page database, without an answer to the prompt. -/
def brokenPrompt : World := { World.of samplePage with
  passphrase := fun _ => .error (.new .brokenPipe "Broken pipe (os error 32)") }

/-- `verify` of the one-page database. -/
def sampleVerify : VerifyArgs := ⟨sampleCipher, none, false, samplePath⟩

/-- The export fails in its first write, and its file is removed. -/
theorem exportCommand_brokenDestination : ∃ e, isBrokenPipe e = true ∧
    ∀ stdout, exportCommand sample { brokenDestination with stdout } sampleExport = some (.error e, none) := by
  have hreader : openReader sample brokenDestination samplePath sampleCipher none = .ok sampleReader := openReader_sample
  have hpage : readerPage sample sampleReader .min = .ok samplePlain :=
    (readerPage_eq_ok_iff sample).2 SqlCipherReader.reads_sampleReader
  obtain ⟨opened, hopen, hcount, hread⟩ : ∃ opened, openInput sample brokenDestination sampleExport.wal sampleExport.inputPath
      sampleExport.cipher sampleExport.passphraseFile = some (.ok opened) ∧ opened.pageCount = 1 ∧
      opened.page = readerPage sample sampleReader := by
    refine ⟨⟨1, readerPage sample sampleReader, sampleReader.pageCount_lt⟩, ?_, rfl, rfl⟩
    show some ((openReader sample brokenDestination samplePath sampleCipher none).map _) = _
    rw [hreader]
    rfl
  have hbroken : Broken ((pageNumbers opened.pageCount).mapM (writeOutcome opened.page brokenDestination.faults
      (exportWriteError sampleExport))) := by
    refine (broken_writes_iff (not_broken_page hopen)).2
      ⟨rfl, .min, Nat.le_of_eq hcount.symm, fun below hle => ?_, fun below hlt => ?_, 0, _, rfl, rfl⟩
    · rw [show below = .min from NonZeroU32.ext (Nat.le_antisymm hle below.pos), hread]
      exact ⟨samplePlain, hpage⟩
    · have hzero : below.get < 1 := hlt
      have := below.pos
      omega
  obtain ⟨e, he, hpipe⟩ : Broken (exportVerdict brokenDestination sampleExport opened) := broken_exportVerdict_iff.2 (.inl hbroken)
  obtain ⟨content, hexport⟩ := exportCommand_eq sample brokenDestination sampleExport
  refine ⟨e, hpipe, fun stdout => ?_⟩
  rw [hexport, hopen, Option.map_some]
  dsimp only [exportEnd]
  rw [he]
  rfl

/-- Status 0 with nothing at the destination, and with no page read. -/
theorem exit_zero_unsound :
    exitStatus (run sample brokenDestination (fun _ => none) (.export sampleExport)) = 0 ∧
      (exportCommand sample brokenDestination sampleExport).map Prod.snd = some none ∧
      ¬ Sound sample brokenDestination (fun _ => none) (.export sampleExport) ∧
      exitStatus (run sample brokenPrompt (fun _ => none) (.verify sampleVerify)) = 0 ∧
      ¬ Sound sample brokenPrompt (fun _ => none) (.verify sampleVerify) := by
  obtain ⟨e, hpipe, hexport⟩ := exportCommand_brokenDestination
  have hrun : run sample brokenDestination (fun _ => none) (.export sampleExport) = some (.error e) := by
    show (exportCommand sample { brokenDestination with stdout := none } sampleExport).map Prod.fst = _
    rw [hexport]
    rfl
  have hprompt : verify sample brokenPrompt sampleVerify =
      some (.error (.io (.new .brokenPipe "Broken pipe (os error 32)"))) := by
    have hreader : openReader sample brokenPrompt samplePath sampleCipher none =
        .error (.io (.new .brokenPipe "Broken pipe (os error 32)")) := by
      unfold openReader
      rw [sampleCipher_config]
      rfl
    unfold sampleVerify
    rw [verify_eq, hreader]
    rfl
  have hrun' : run sample brokenPrompt (fun _ => none) (.verify sampleVerify) =
      some (.error (.io (.new .brokenPipe "Broken pipe (os error 32)"))) := hprompt
  refine ⟨?_, ?_, ?_, ?_, ?_⟩
  · rw [hrun]
    exact exitStatus_error.2 hpipe
  · rw [show exportCommand sample brokenDestination sampleExport = some (.error e, none) from hexport none]
    rfl
  · rintro ⟨-, hreported⟩
    rw [hrun] at hreported
    cases hreported
  · rw [hrun']
    rfl
  · rintro ⟨-, hreported⟩
    rw [hrun'] at hreported
    cases hreported

end Veilite.Cli

/-
How a command ends, whatever fails on the way: what `verify` and `export` read once their input is open, one verdict
on reading, writing and syncing it, and what an export leaves by that verdict.
-/
import Veilite.Cli.Agreement

namespace Veilite.Cli

open Buffer Veilite.Core Traverse Turso

/-! ## Writing pages -/

section Writing

variable {ε : Type} (page : NonZeroU32 → Except ε Bytes) (faults : Faults) (writeError : IoError → ε)

/-- A sink that writes what `f` makes of each page. -/
def writeSink (f : NonZeroU32 → Bytes → Bytes) (pageNo : NonZeroU32) (bytes : Bytes) (file : OutputFile) :
    Option (Except ε Unit × OutputFile) :=
  some ((writeAll faults (f pageNo bytes) file).1.mapError writeError, (writeAll faults (f pageNo bytes) file).2)

/-- The outcome of a page and of its write, which for page `n` is the write `n - 1`. -/
def writeOutcome (pageNo : NonZeroU32) : Except ε Unit :=
  match page pageNo with
  | .error e => .error e
  | .ok _ => match faults.write (pageNo.get - 1) with
    | some (_, source) => .error (writeError source)
    | none => .ok ()

/-- Errors passed on by a function. -/
theorem writeOutcome_mapError {ε' : Type} (g : ε → ε') (pageNo : NonZeroU32) :
    (writeOutcome page faults writeError pageNo).mapError g =
      writeOutcome (fun pageNo => (page pageNo).mapError g) faults (fun source => g (writeError source)) pageNo := by
  unfold writeOutcome
  dsimp only
  rcases page pageNo with e | bytes
  · rfl
  · rcases faults.write (pageNo.get - 1) with _ | ⟨written, source⟩
    · rfl
    · rfl

variable {page faults writeError}

/-- Page `n` comes to a file that was written to `n - 1` times. -/
theorem deliver_writeSink {f : NonZeroU32 → Bytes → Bytes} {pageNo : NonZeroU32} {file : OutputFile}
    (hget : pageNo.get = file.writes + 1) :
    ∃ file', deliver page (writeSink faults writeError f) pageNo file =
        some (writeOutcome page faults writeError pageNo, file') ∧
      (writeOutcome page faults writeError pageNo = .ok () → file'.writes = file.writes + 1) := by
  unfold deliver writeOutcome writeSink writeAll
  rw [hget, Nat.add_sub_cancel]
  rcases page pageNo with e | bytes
  · exact ⟨file, rfl, by rintro ⟨⟩⟩
  rcases faults.write file.writes with _ | ⟨written, source⟩
  · exact ⟨_, rfl, fun _ => rfl⟩
  · exact ⟨_, rfl, by rintro ⟨⟩⟩

/-- Consecutive pages end as the first that does not read or whose write fails. -/
theorem forEach_writeSink {f : NonZeroU32 → Bytes → Bytes} : ∀ {is : List NonZeroU32} {file : OutputFile},
    is.map NonZeroU32.get = List.range' (file.writes + 1) is.length →
      ∃ file', forEach (deliver page (writeSink faults writeError f)) is file =
        some ((is.mapM (writeOutcome page faults writeError)).map fun _ => (), file')
  | [], file, _ => ⟨file, rfl⟩
  | pageNo :: is, file, hnumbers => by
    rw [List.map_cons, List.length_cons, List.range'_succ, List.cons.injEq] at hnumbers
    obtain ⟨file', hstep, hwrites⟩ := deliver_writeSink (f := f) hnumbers.1
    rw [forEach, List.mapM_cons, hstep]
    rcases houtcome : writeOutcome page faults writeError pageNo with e | _
    · exact ⟨file', rfl⟩
    have hrest : is.map NonZeroU32.get = List.range' (file'.writes + 1) is.length := by
      rw [hwrites houtcome]
      exact hnumbers.2
    obtain ⟨file'', hrun⟩ := forEach_writeSink hrest
    refine ⟨file'', ?_⟩
    dsimp only
    rw [hrun]
    rcases is.mapM (writeOutcome page faults writeError) with e | outcomes
    · rfl
    · rfl

/-- All pages of a count are written, or the run ends as the lowest that is not. -/
theorem forEach_writeSink_pageNumbers (f : NonZeroU32 → Bytes → Bytes) {count : Nat} (hlt : count < 2 ^ 32) :
    ∃ file, forEach (deliver page (writeSink faults writeError f)) (pageNumbers count) ⟨[], 0⟩ =
      some (((pageNumbers count).mapM (writeOutcome page faults writeError)).map fun _ => (), file) := by
  apply forEach_writeSink
  rw [map_get_pageNumbers hlt, length_pageNumbers hlt]

end Writing

/-! ## The destination -/

section Destination

variable (faults : Faults) (path : Path)

/-- The pages as they were written, then the sync. -/
def syncAfter (written : Except CliError Unit) : Except CliError Unit := do
  written
  match faults.sync with
  | some source => .error (.io (pathIoError "failed to sync export" path source))
  | none => .ok ()

/-- How `write_plaintext_file` ends by the verdict on its file, and the entry it leaves if the file holds `content`. -/
def destinationEnd (prior : Option Entry) (verdict : Except CliError Unit) (content : Bytes) :
    Except CliError Unit × Option Entry :=
  match createNew faults prior with
  | .error source => (.error (.io (pathIoError "failed to create export" path source)), prior)
  | .ok _ => match verdict with
    | .error e =>
      let cleaned := cleanupFailedExport faults path e (some (.file content))
      (.error cleaned.1, cleaned.2)
    | .ok () => (.ok (), some (.file content))

variable {faults path}

theorem writePlaintextFile_eq {prior : Option Entry} {writePages : OutputFile → Option (Except CliError Unit × OutputFile)}
    {written : Except CliError Unit} {file : OutputFile} (h : writePages ⟨[], 0⟩ = some (written, file)) :
    writePlaintextFile faults path writePages prior =
      some (destinationEnd faults path prior (syncAfter faults path written) file.content) := by
  unfold writePlaintextFile destinationEnd createNew
  rcases faults.create with _ | source
  · rcases prior with _ | entry
    · dsimp only
      rw [h]
      unfold syncAfter
      rcases written with e | _
      · rfl
      · rcases faults.sync with _ | source
        · simp only [Option.bind_eq_bind, Option.bind_some]
          rfl
        · simp only [Option.bind_eq_bind, Option.bind_some]
          rfl
    · rfl
  · rfl

end Destination

/-! ## What is opened -/

/-- An opened input: how many pages it has, and each of them. -/
structure Opened where
  pageCount : Nat
  page : NonZeroU32 → Except CliError Bytes
  pageCount_lt : pageCount < 2 ^ 32

section Outcome

variable (C : Primitives) (world : World)

/-- The input of a main-only command, or of one with `--wal`. -/
def openInput (wal : Bool) (inputPath : Path) (cipher : CipherArgs) (passphraseFile : Option Path) :
    Option (Except CliError Opened) :=
  if wal then
    (openWalSnapshot C world inputPath cipher passphraseFile).map fun opened => opened.map fun snapshot =>
      ⟨snapshot.pageCount, fun pageNo => (snapshot.selectedPage pageNo).mapError .visit, snapshot.pageCount_lt⟩
  else some ((openReader C world inputPath cipher passphraseFile).map fun reader =>
    ⟨reader.pageCount, readerPage C reader, reader.pageCount_lt⟩)

/-- A snapshot is opened or refused. -/
theorem snapshot_total (input : WalInput) (config : CipherConfig) (passphrase : Bytes) (registry : Registry) :
    ∃ opened, input.snapshot C world.fs world.engine config passphrase registry = some opened := by
  unfold WalInput.snapshot WalInput.connect openConnection
  obtain ⟨codec, hcodec⟩ : ∃ codec, openCodec C world.fs input.path config passphrase (some (input.frames config)) = some codec := by
    rcases openCodec_cases C world.fs input.path config passphrase (some (input.frames config)) with
      ⟨e, he⟩ | ⟨source, size, salt, hauth⟩
    · exact ⟨_, he⟩
    · exact ⟨_, openCodec_of_authenticates _ _ _ _ _ _ hauth⟩
  rw [hcodec]
  rcases codec with e | codec
  · exact ⟨_, rfl⟩
  · rcases hattach : (attach world.fs world.engine input.path codec.1 registry).1 with e | connection
    · simp only [Option.bind_eq_bind, Option.bind_some, Option.pure_def, hattach]
      exact ⟨_, rfl⟩
    · simp only [Option.bind_eq_bind, Option.bind_some, Option.pure_def, hattach]
      exact ⟨_, rfl⟩

/-- Opening returns, with an input or an error. -/
theorem openInput_total (wal : Bool) (inputPath : Path) (cipher : CipherArgs) (passphraseFile : Option Path) :
    ∃ opened, openInput C world wal inputPath cipher passphraseFile = some opened := by
  unfold openInput
  cases wal with
  | true =>
    rw [if_pos rfl]
    unfold openWalSnapshot
    split
    · exact ⟨_, rfl⟩
    · rename_i config input passphrase hchecked
      obtain ⟨opened, hopened⟩ := snapshot_total C world input config passphrase emptyRegistry
      rw [hopened]
      exact ⟨_, rfl⟩
  | false => exact ⟨_, rfl⟩

/-- What is opened is a snapshot with `--wal`, and a reader without. -/
theorem openInput_eq_ok {C : Primitives} {world : World} {wal : Bool} {inputPath : Path} {cipher : CipherArgs}
    {passphraseFile : Option Path} {opened : Opened}
    (h : openInput C world wal inputPath cipher passphraseFile = some (.ok opened)) :
    (∃ snapshot, wal = true ∧ openWalSnapshot C world inputPath cipher passphraseFile = some (.ok snapshot) ∧
      opened = ⟨snapshot.pageCount, fun pageNo => (snapshot.selectedPage pageNo).mapError .visit, snapshot.pageCount_lt⟩) ∨
    ∃ reader, wal = false ∧ openReader C world inputPath cipher passphraseFile = .ok reader ∧
      opened = ⟨reader.pageCount, readerPage C reader, reader.pageCount_lt⟩ := by
  unfold openInput at h
  cases wal with
  | true =>
    left
    rw [if_pos rfl] at h
    rcases hopen : openWalSnapshot C world inputPath cipher passphraseFile with _ | e | snapshot
    · rw [hopen] at h
      cases h
    · rw [hopen] at h
      cases h
    · rw [hopen] at h
      cases h
      exact ⟨snapshot, rfl, rfl, rfl⟩
  | false =>
    right
    rw [if_neg Bool.false_ne_true] at h
    rcases hopen : openReader C world inputPath cipher passphraseFile with e | reader
    · rw [hopen] at h
      cases h
    · rw [hopen] at h
      cases h
      exact ⟨reader, rfl, rfl, rfl⟩

/-- As what a failed write of the export comes back: from the page loop itself, or from the callback of the snapshot. -/
def exportWriteError (args : ExportArgs) (source : IoError) : CliError :=
  if args.wal then .visit (.callback (pathIoError "failed to write export" args.outputPath source))
  else .io (pathIoError "failed to write export" args.outputPath source)

/-- How writing the created file ends: with the lowest page that does not read or is not written, or with the sync. -/
def exportVerdict (args : ExportArgs) (opened : Opened) : Except CliError Unit :=
  syncAfter world.faults args.outputPath
    (((pageNumbers opened.pageCount).mapM (writeOutcome opened.page world.faults (exportWriteError args))).map fun _ => ())

/-- How the file of an export of an opened input ends, and the entry that is left if it holds `content`. -/
def exportEnd (args : ExportArgs) (opened : Opened) (content : Bytes) : Except CliError Unit × Option Entry :=
  destinationEnd world.faults args.outputPath world.destination (exportVerdict world args opened) content

variable {C world}

/-- The main-only writer ends with the verdict on its pages. -/
theorem writeDecryptedDatabase_end (faults : Faults) (path : Path) (reader : SqlCipherReader Unit IoError)
    (prior : Option Entry) :
    ∃ content, writeDecryptedDatabase faults C path reader prior = some (destinationEnd faults path prior
      (syncAfter faults path (((pageNumbers reader.pageCount).mapM (writeOutcome (readerPage C reader) faults fun source =>
        .io (pathIoError "failed to write export" path source))).map fun _ => ())) content) := by
  obtain ⟨file, hfile⟩ : ∃ file, forEach (deliver (readerPage C reader) (writePage faults path)) (pageNumbers reader.pageCount)
      ⟨[], 0⟩ = some (_, file) := forEach_writeSink_pageNumbers (fun _ bytes => bytes) reader.pageCount_lt
  refine ⟨file.content, ?_⟩
  rw [writeDecryptedDatabase_eq]
  exact writePlaintextFile_eq hfile

/-- So does that of the merged image, whose errors come through the snapshot's traversal. -/
theorem writeWalDatabase_end (faults : Faults) (path : Path) (snapshot : WalSnapshot) (prior : Option Entry) :
    ∃ content, writeWalDatabase faults path snapshot prior = some (destinationEnd faults path prior
      (syncAfter faults path (((pageNumbers snapshot.pageCount).mapM (writeOutcome
        (fun pageNo => (snapshot.selectedPage pageNo).mapError .visit) faults fun source =>
          .visit (.callback (pathIoError "failed to write export" path source)))).map fun _ => ())) content) := by
  have hsink : (deliver snapshot.selectedPage fun pageNo bytes file =>
      (writeSnapshotPage faults path pageNo bytes file).map fun visited => (visited.1.mapError VisitError.callback, visited.2)) =
      deliver snapshot.selectedPage (writeSink faults (fun source => .callback (pathIoError "failed to write export" path source))
        standalonePage) := by
    funext pageNo file
    unfold deliver
    rcases hpage : snapshot.selectedPage pageNo with e | bytes
    · rfl
    dsimp only
    rw [writeSnapshotPage_eq faults path (selectedPage_ge hpage)]
    unfold writeSink
    rcases (writeAll faults (standalonePage pageNo bytes) file).1 with e | _
    · rfl
    · rfl
  obtain ⟨file, hfile⟩ : ∃ file, snapshot.visitPages (writeSnapshotPage faults path) ⟨[], 0⟩ = some (_, file) := by
    rw [snapshot.visitPages_eq, hsink]
    exact forEach_writeSink_pageNumbers standalonePage snapshot.pageCount_lt
  refine ⟨file.content, ?_⟩
  unfold writeWalDatabase
  apply writePlaintextFile_eq
  have houtcome : writeOutcome (fun pageNo => (snapshot.selectedPage pageNo).mapError CliError.visit) faults (fun source =>
      .visit (.callback (pathIoError "failed to write export" path source))) = fun pageNo =>
      (writeOutcome snapshot.selectedPage faults (fun source => .callback (pathIoError "failed to write export" path source))
        pageNo).mapError CliError.visit :=
    funext fun pageNo => (writeOutcome_mapError _ _ _ _ pageNo).symm
  rw [hfile, houtcome, ← mapError_mapM, Option.bind_eq_bind, Option.bind_some]
  rcases (pageNumbers snapshot.pageCount).mapM (writeOutcome snapshot.selectedPage faults _) with e | outcomes
  · rfl
  · rfl

/-- An export by what it opens: the report comes after the destination, and has no part in what is there. -/
theorem exportCommand_eq (C : Primitives) (world : World) (args : ExportArgs) :
    ∃ content, ∀ stdout, exportCommand C { world with stdout } args =
      (openInput C world args.wal args.inputPath args.cipher args.passphraseFile).map fun
        | .error e => (.error e, world.destination)
        | .ok opened => ((exportEnd world args opened content).1 >>= fun _ => report { world with stdout },
          (exportEnd world args opened content).2) := by
  have hreport : ∀ (written : Except CliError Unit × Option Entry) (stdout : Option IoError),
      (match written.1 with
        | .error e => some (.error e, written.2)
        | .ok () => some (report { world with stdout }, written.2)) =
        some (written.1 >>= fun _ => report { world with stdout }, written.2) := by
    rintro ⟨e | _, entry⟩ stdout
    · rfl
    · rfl
  obtain ⟨cipher, passphraseFile, wal, inputPath, outputPath⟩ := args
  -- standard output has no part in opening
  have hsnapshot : ∀ stdout, openWalSnapshot C { world with stdout } inputPath cipher passphraseFile =
      openWalSnapshot C world inputPath cipher passphraseFile := fun _ => rfl
  have hreader : ∀ stdout, openReader C { world with stdout } inputPath cipher passphraseFile =
      openReader C world inputPath cipher passphraseFile := fun _ => rfl
  unfold exportCommand openInput exportEnd exportVerdict exportWriteError
  cases wal with
  | true =>
    rcases hopen : openWalSnapshot C world inputPath cipher passphraseFile with _ | e | snapshot
    · refine ⟨[], fun stdout => ?_⟩
      simp only [if_true, hsnapshot, hopen]
      rfl
    · refine ⟨[], fun stdout => ?_⟩
      simp only [if_true, hsnapshot, hopen]
      rfl
    · obtain ⟨content, hwrite⟩ := writeWalDatabase_end world.faults outputPath snapshot world.destination
      refine ⟨content, fun stdout => ?_⟩
      simp only [if_true, hsnapshot, hopen, Option.bind_eq_bind, Option.bind_some, hwrite]
      exact hreport _ stdout
  | false =>
    rcases hopen : openReader C world inputPath cipher passphraseFile with e | reader
    · refine ⟨[], fun stdout => ?_⟩
      simp only [Bool.false_eq_true, if_false, hreader, hopen]
      rfl
    · obtain ⟨content, hwrite⟩ := writeDecryptedDatabase_end (C := C) world.faults outputPath reader world.destination
      refine ⟨content, fun stdout => ?_⟩
      simp only [Bool.false_eq_true, if_false, hreader, hopen, Option.bind_eq_bind, Option.bind_some, hwrite]
      exact hreport _ stdout

/-- Everything an export has to do to its file. -/
structure Complete (faults : Faults) (opened : Opened) : Prop where
  read : ∀ pageNo : NonZeroU32, pageNo.get ≤ opened.pageCount → ∃ bytes, opened.page pageNo = .ok bytes
  written : ∀ pageNo : NonZeroU32, pageNo.get ≤ opened.pageCount → faults.write (pageNo.get - 1) = none
  synced : faults.sync = none

theorem writeOutcome_eq_ok_iff {ε : Type} {page : NonZeroU32 → Except ε Bytes} {faults : Faults} {writeError : IoError → ε}
    {pageNo : NonZeroU32} : (∃ u, writeOutcome page faults writeError pageNo = .ok u) ↔
      (∃ bytes, page pageNo = .ok bytes) ∧ faults.write (pageNo.get - 1) = none := by
  unfold writeOutcome
  rcases page pageNo with e | bytes
  · simp
  · rcases faults.write (pageNo.get - 1) with _ | ⟨written, source⟩
    · simp
    · simp

theorem exportVerdict_eq_ok_iff {args : ExportArgs} {opened : Opened} :
    exportVerdict world args opened = .ok () ↔ Complete world.faults opened := by
  have hwritten : (∃ outcomes, (pageNumbers opened.pageCount).mapM
      (writeOutcome opened.page world.faults (exportWriteError args)) = .ok outcomes) ↔ _ := mapM_pageNumbers_ok_iff
  unfold exportVerdict syncAfter
  constructor
  · intro h
    obtain ⟨_, hmap, hsync⟩ := bind_eq_ok_iff.1 h
    rcases hpages : (pageNumbers opened.pageCount).mapM (writeOutcome opened.page world.faults (exportWriteError args)) with
      e | outcomes
    · rw [hpages] at hmap; cases hmap
    have hall := hwritten.1 ⟨outcomes, hpages⟩
    refine ⟨fun pageNo hle => (writeOutcome_eq_ok_iff.1 (hall pageNo hle)).1,
      fun pageNo hle => (writeOutcome_eq_ok_iff.1 (hall pageNo hle)).2, ?_⟩
    rcases hsource : world.faults.sync with _ | source
    · rfl
    · rw [hsource] at hsync; cases hsync
  · intro h
    obtain ⟨outcomes, hpages⟩ := hwritten.2 fun pageNo hle => writeOutcome_eq_ok_iff.2 ⟨h.read pageNo hle, h.written pageNo hle⟩
    rw [hpages, h.synced]
    rfl

/-- `verify` by what it opens: it reads every page and reports. -/
theorem verify_eq_map (args : VerifyArgs) :
    verify C world args = (openInput C world args.wal args.inputPath args.cipher args.passphraseFile).map fun opened =>
      opened >>= fun opened => (pageNumbers opened.pageCount).mapM opened.page >>= fun _ => report world := by
  obtain ⟨cipher, passphraseFile, wal, inputPath⟩ := args
  unfold openInput
  cases wal with
  | true =>
    unfold verify
    rcases openWalSnapshot C world inputPath cipher passphraseFile with _ | e | snapshot
    · simp only [if_true]
      rfl
    · simp only [if_true]
      rfl
    have hvisit : snapshot.visitPages (fun _ _ t => some (.ok (), t)) () =
        some (((pageNumbers snapshot.pageCount).mapM snapshot.selectedPage).map fun _ => (), ()) := by
      rw [snapshot.visitPages_eq]
      exact forEach_deliver snapshot.selectedPage (fun t _ _ => t) _ ()
    change _ = some ((pageNumbers snapshot.pageCount).mapM (fun pageNo => (snapshot.selectedPage pageNo).mapError .visit) >>=
      fun _ => report world)
    simp only [if_true, Option.bind_eq_bind, Option.bind_some, hvisit, Except.map, ← mapError_mapM]
    rcases (pageNumbers snapshot.pageCount).mapM snapshot.selectedPage with e | pages
    · rfl
    · rfl
  | false =>
    rw [verify_eq]
    rcases hopen : openReader C world inputPath cipher passphraseFile with e | reader
    · rfl
    change _ = some ((pageNumbers reader.pageCount).mapM (readerPage C reader) >>= fun _ => report world)
    unfold readAll
    simp only [Except.bind, Except.map]
    rcases (pageNumbers reader.pageCount).mapM (readerPage C reader) with e | pages
    · rfl
    · rfl

end Outcome

end Veilite.Cli

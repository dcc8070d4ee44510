/-
The commands decide a format. In a run where nothing but the input can fail, main-only `verify` succeeds on exactly
the encodings and `export` writes the image back; with `--wal` the same holds of the checkpointed file, whose image
is written standalone.
-/
import Veilite.Core.Format
import Veilite.Turso.Checkpoint
import Veilite.Cli.Standalone
import Veilite.Cli.Outcome
import Veilite.Cli.Preflight

namespace Veilite.Cli

open Buffer Veilite.Core Traverse Turso

/-! ## The main file -/

section Main

variable {C : Primitives} {world : World} {cipher : CipherArgs} {passphraseFile : Option Path} {inputPath : Path}
  {config : CipherConfig} {passphrase content : Bytes}
  (h : Undisturbed world cipher passphraseFile inputPath config passphrase content)
include h

/-- An undisturbed run opens what the reader opens. -/
theorem Undisturbed.openReader_eq : Cli.openReader C world inputPath cipher passphraseFile =
    (SqlCipherReader.open C (FileSource content) config passphrase ()).1.mapError .reader := by
  obtain ⟨resolved, hresolved, halone, hfile⟩ := h.found
  unfold Cli.openReader openEncryptedDatabase
  rw [h.config, h.alone, hresolved, h.passphrase]
  simp only [Except.mapError, bind, Except.bind, halone, hfile]

/-- The reader of an accepted file, and all that its pages read as. -/
theorem Undisturbed.accepts_iff {plain : Bytes} : Accepts C config passphrase content plain ↔
    ∃ reader, Cli.openReader C world inputPath cipher passphraseFile = .ok reader ∧ readAll C reader = .ok () ∧
      plain = reader.plaintextImage C := by
  unfold Accepts
  rw [h.openReader_eq]
  simp only [SqlCipherReader.visitPages_collect_iff, mapError_eq_ok_iff, readAll_eq_ok_iff, Prod.ext_iff, and_true]

theorem Undisturbed.verify_iff : verify C world ⟨cipher, passphraseFile, false, inputPath⟩ = some (.ok ()) ↔
    ∃ plain, Accepts C config passphrase content plain := by
  simp only [verify_eq_ok_iff, h.accepts_iff, readAll_eq_ok_iff, h.stdout, true_and]
  constructor
  · rintro ⟨reader, hopen, hread⟩
    exact ⟨_, reader, hopen, hread, rfl⟩
  · rintro ⟨_, reader, hopen, hread, -⟩
    exact ⟨reader, hopen, hread⟩

/-- The export of an accepted file is what it was accepted as; any other is refused and nothing is left. -/
theorem Undisturbed.export_iff (outputPath : Path) {entry : Option Entry} :
    exportCommand C world ⟨cipher, passphraseFile, false, inputPath, outputPath⟩ = some (.ok (), entry) ↔
      ∃ plain, Accepts C config passphrase content plain ∧ entry = some (.file plain) := by
  rw [exportCommand_quiet C h.quiet h.fresh]
  simp only [h.accepts_iff]
  unfold exportOutcome report
  rw [h.stdout]
  rcases Cli.openReader C world inputPath cipher passphraseFile with e | reader
  · simp
  · rcases hread : readAll C reader with e | _
    · simp [hread]
    · simp [hread, eq_comm]

theorem Undisturbed.export_total (outputPath : Path) : ∃ result entry,
    exportCommand C world ⟨cipher, passphraseFile, false, inputPath, outputPath⟩ = some (result, entry) ∧
      ∀ e, result = .error e → entry = none := by
  rw [exportCommand_quiet C h.quiet h.fresh]
  unfold exportOutcome report
  rw [h.stdout]
  rcases Cli.openReader C world inputPath cipher passphraseFile with e | reader
  · exact ⟨_, _, rfl, fun _ _ => rfl⟩
  · dsimp only
    rcases readAll C reader with e | _
    · exact ⟨_, _, rfl, fun _ _ => rfl⟩
    · exact ⟨_, _, rfl, by rintro e ⟨⟩⟩

/-- The image a main-only export selects is what the file is accepted as. -/
theorem Undisturbed.selects_iff {outputPath : Path} {image : Bytes} :
    Selects C world ⟨cipher, passphraseFile, false, inputPath, outputPath⟩ image ↔ Accepts C config passphrase content image := by
  constructor
  · rintro (⟨-, opened, visited⟩ | ⟨⟨⟩⟩)
    rw [h.openReader_eq] at opened
    exact ⟨_, Prod.ext (mapError_eq_ok_iff.1 opened) rfl, visited⟩
  · rintro ⟨reader, hopen, hvisit⟩
    have hreader : Cli.openReader C world inputPath cipher passphraseFile = .ok reader := by
      rw [h.openReader_eq, hopen]
      rfl
    exact .main rfl hreader hvisit

/-- Main-only `verify` and `export` decide the file format: the file is verified when it is an encoding under the
passphrase, and its export is the image; of any other file nothing is left. -/
theorem commands_decide_format (outputPath : Path) :
    (verify C world ⟨cipher, passphraseFile, false, inputPath⟩ = some (.ok ()) ↔
      passphrase ≠ [] ∧ ∃ (image : Image config) (sealing : Sealing config), image.encode C passphrase sealing = content) ∧
    (∀ (image : Image config) (sealing : Sealing config), passphrase ≠ [] → image.encode C passphrase sealing = content →
      exportCommand C world ⟨cipher, passphraseFile, false, inputPath, outputPath⟩ =
        some (.ok (), some (.file image.bytes))) ∧
    ((∀ (image : Image config) (sealing : Sealing config), passphrase ≠ [] → image.encode C passphrase sealing ≠ content) →
      ∃ e, exportCommand C world ⟨cipher, passphraseFile, false, inputPath, outputPath⟩ = some (.error e, none)) := by
  refine ⟨?_, fun image sealing hne hcontent => ?_, fun hnone => ?_⟩
  · rw [h.verify_iff]
    constructor
    · rintro ⟨plain, haccepts⟩
      obtain ⟨hne, image, sealing, -, hcontent⟩ := accepts_iff_encodes.1 haccepts
      exact ⟨hne, image, sealing, hcontent⟩
    · rintro ⟨hne, image, sealing, hcontent⟩
      exact ⟨image.bytes, accepts_iff_encodes.2 ⟨hne, image, sealing, rfl, hcontent⟩⟩
  · exact (h.export_iff outputPath).2 ⟨_, accepts_iff_encodes.2 ⟨hne, image, sealing, rfl, hcontent⟩, rfl⟩
  · obtain ⟨result, entry, hexport, hleft⟩ := h.export_total outputPath
    rcases result with e | _
    · exact ⟨e, by rw [hexport, hleft e rfl]⟩
    · obtain ⟨plain, haccepts, -⟩ := (h.export_iff outputPath).1 hexport
      obtain ⟨hne, image, sealing, -, hcontent⟩ := accepts_iff_encodes.1 haccepts
      exact absurd hcontent (hnone image sealing hne)

end Main

/-! ## The main file and its WAL -/

/-- A run with `--wal` over a database and a commit selected in its WAL: the input passes its checks, the engine
serves the commit through the codec of the main file, and nothing else fails. -/
structure Merged (C : Primitives) (world : World) (cipher : CipherArgs) (passphraseFile : Option Path) (inputPath : Path)
    (config : CipherConfig) (passphrase main : Bytes) (input : WalInput)
    (commit : Commit config main (some (input.frames config))) : Prop where
  configured : cipher.config = .ok config
  given : world.passphrase passphraseFile = .ok passphrase
  selected : WalInput.open world.fs inputPath = .ok input
  opened : world.fs.openFile input.path = .ok (FileSource main)
  platformIo : world.engine.platformIo = none
  openDatabase : world.engine.openDatabase = none
  connect : world.engine.connect = none
  beginRead : world.engine.beginRead = none
  pageCount : world.engine.pageCount = .ok commit.pageCount
  serves : ∀ salt : Block, salt.toList = main.take 16 →
    commit.Serves C (codecOf C input.path config passphrase (some (input.frames config)) main.length salt).1
      (world.engine.readPage (codecOf C input.path config passphrase (some (input.frames config)) main.length salt).1)
  fresh : world.destination = none
  quiet : world.faults.Quiet
  stdout : world.stdout = none

theorem report_eq_ok_iff {world : World} : report world = .ok () ↔ world.stdout = none := by
  unfold report
  cases world.stdout <;> simp

/-- `verify --wal` succeeds exactly when the snapshot opens, every page of it reads and the report is written. -/
theorem verify_wal_eq_ok_iff {C : Primitives} {world : World} {cipher : CipherArgs} {passphraseFile : Option Path}
    {inputPath : Path} : verify C world ⟨cipher, passphraseFile, true, inputPath⟩ = some (.ok ()) ↔ world.stdout = none ∧
      ∃ snapshot, openWalSnapshot C world inputPath cipher passphraseFile = some (.ok snapshot) ∧
        ∀ pageNo : NonZeroU32, pageNo.get ≤ snapshot.pageCount → ∃ bytes, snapshot.selectedPage pageNo = .ok bytes := by
  rw [verify_eq_map]
  unfold openInput
  rw [if_pos rfl]
  rcases openWalSnapshot C world inputPath cipher passphraseFile with _ | e | snapshot
  · simp
  · simp [Except.map, bind, Except.bind]
  · simp only [Option.map_some, Except.map, Option.some.injEq, Except.ok.injEq, exists_eq_left', bind_eq_ok_iff,
      report_eq_ok_iff, exists_and_right, mapM_pageNumbers_ok_iff, mapError_eq_ok_iff]
    rw [and_comm]

section Merged

variable {C : Primitives} {world : World} {cipher : CipherArgs} {passphraseFile : Option Path} {inputPath : Path}
  {config : CipherConfig} {passphrase main : Bytes} {input : WalInput}
  {commit : Commit config main (some (input.frames config))}

/-- Page 1 of the main file authenticates, whatever the commit has in its place. -/
def MainAuthenticates (C : Primitives) (world : World) (config : CipherConfig) (passphrase main : Bytes) (input : WalInput) : Prop :=
  ∃ salt, Authenticates C world.fs input.path config passphrase (FileSource main) main.length salt

variable (h : Merged C world cipher passphraseFile inputPath config passphrase main input commit)
include h

theorem Merged.openWalSnapshot_eq : openWalSnapshot C world inputPath cipher passphraseFile =
    (input.snapshot C world.fs world.engine config passphrase emptyRegistry).map fun opened => opened.1.mapError .openDatabase := by
  unfold openWalSnapshot
  rw [h.configured, h.selected, h.given]
  rw [Option.map_eq_bind]
  rfl

/-- The snapshot of an authenticated main file is of the commit. -/
theorem Merged.openWalSnapshot {salt : Block}
    (hauth : Authenticates C world.fs input.path config passphrase (FileSource main) main.length salt) :
    ∃ snapshot, Cli.openWalSnapshot C world inputPath cipher passphraseFile = some (.ok snapshot) ∧
      snapshot.pageCount = commit.pageCount ∧ snapshot.pageSize = config.pageSize ∧
      commit.Serves C (codecOf C input.path config passphrase (some (input.frames config)) main.length salt).1
        snapshot.connection.pager := by
  have hattach : (attach world.fs world.engine input.path
      (codecOf C input.path config passphrase (some (input.frames config)) main.length salt).1 emptyRegistry).1 =
      .ok ⟨(codecOf C input.path config passphrase (some (input.frames config)) main.length salt).1, world.fs.fileId input.path,
        world.engine.readPage (codecOf C input.path config passphrase (some (input.frames config)) main.length salt).1⟩ := by
    unfold attach Turso.openDatabase emptyRegistry
    simp only [h.platformIo, h.openDatabase, h.connect]
  have hcount : 0 ≤ (commit.pageCount : Int) ∧ (commit.pageCount : Int) < 2 ^ 32 ∧ (commit.pageCount : Int).toNat > 0 ∧
      (commit.pageCount : Int).toNat ≤ (codecOf C input.path config passphrase (some (input.frames config)) main.length salt).2 := by
    have hpos := commit.pageCount_pos
    have hlt := commit.pageCount_lt
    have hbounded := commit.bounded
    rw [Int.toNat_natCast]
    exact ⟨by omega, by exact_mod_cast hlt, hpos, hbounded⟩
  have hserves := h.serves salt hauth.first_page.1
  rw [h.openWalSnapshot_eq]
  unfold WalInput.snapshot WalInput.connect openConnection beginSnapshot
  rw [openCodec_of_authenticates _ _ _ _ _ _ hauth]
  simp only [Option.bind_eq_bind, Option.bind_some, hattach, Except.map, h.beginRead, h.pageCount, Option.pure_def, dif_pos hcount]
  exact ⟨_, rfl, Int.toNat_natCast _, rfl, hserves⟩

/-- Any other main file is refused. -/
theorem Merged.openWalSnapshot_error (hauth : ¬ MainAuthenticates C world config passphrase main input) :
    ∃ e, Cli.openWalSnapshot C world inputPath cipher passphraseFile = some (.error e) := by
  have hnone : ∀ source size salt, ¬ Authenticates C world.fs input.path config passphrase source size salt := by
    intro source size salt h'
    obtain rfl : FileSource main = source := Except.ok.inj (h.opened.symm.trans h'.opened)
    obtain rfl : main.length = size := Except.ok.inj h'.len
    exact hauth ⟨salt, h'⟩
  obtain ⟨e, he⟩ := openCodec_eq_error C world.fs input.path config passphrase (some (input.frames config)) hnone
  rw [h.openWalSnapshot_eq]
  unfold WalInput.snapshot WalInput.connect openConnection
  rw [he]
  exact ⟨_, rfl⟩

/-- What a merged run selects is what the checkpointed file is accepted as. -/
theorem Merged.visits_iff {plain : Bytes} :
    (∃ snapshot, Cli.openWalSnapshot C world inputPath cipher passphraseFile = some (.ok snapshot) ∧
      snapshot.visitPages collect [] = some (.ok (), plain)) ↔
    MainAuthenticates C world config passphrase main input ∧ Accepts C config passphrase commit.checkpoint plain := by
  by_cases hauth : MainAuthenticates C world config passphrase main input
  · obtain ⟨salt, hsalt⟩ := id hauth
    obtain ⟨snapshot, hopen, hcount, hsize, hserves⟩ := h.openWalSnapshot hsalt
    obtain ⟨r, hr, -, hagree⟩ := visitPages_agree hsalt commit hcount hsize hserves
    have hsame : snapshot.visitPages collect [] = some (.ok (), plain) ↔ r.visitPages C collect [] = some (.ok (), plain) :=
      (hagree Bytes collect []).ok_iff
    unfold Accepts
    rw [hopen, hr]
    simp [hauth, hsame]
  · obtain ⟨e, he⟩ := h.openWalSnapshot_error hauth
    simp [he, hauth]

theorem Merged.verify_iff : verify C world ⟨cipher, passphraseFile, true, inputPath⟩ = some (.ok ()) ↔
    MainAuthenticates C world config passphrase main input ∧ ∃ plain, Accepts C config passphrase commit.checkpoint plain := by
  rw [verify_wal_eq_ok_iff]
  constructor
  · rintro ⟨-, snapshot, hopen, hread⟩
    obtain ⟨hauth, haccepts⟩ := h.visits_iff.1 ⟨snapshot, hopen, snapshot.visitPages_collect hread⟩
    exact ⟨hauth, _, haccepts⟩
  · rintro ⟨hauth, plain, haccepts⟩
    obtain ⟨snapshot, hopen, hvisit⟩ := h.visits_iff.2 ⟨hauth, haccepts⟩
    exact ⟨h.stdout, snapshot, hopen, (snapshot.visitPages_collect_iff.1 hvisit).1⟩

theorem Merged.export_iff (outputPath : Path) {entry : Option Entry} :
    exportCommand C world ⟨cipher, passphraseFile, true, inputPath, outputPath⟩ = some (.ok (), entry) ↔
      MainAuthenticates C world config passphrase main input ∧
        ∃ plain, Accepts C config passphrase commit.checkpoint plain ∧ entry = some (.file (standalone plain)) := by
  constructor
  · intro hexport
    obtain ⟨snapshot, hopen, hread, hentry⟩ := exportCommand_wal_ok C world rfl hexport
    obtain ⟨hauth, haccepts⟩ := h.visits_iff.1 ⟨snapshot, hopen, snapshot.visitPages_collect hread⟩
    exact ⟨hauth, _, haccepts, hentry⟩
  · rintro ⟨hauth, plain, haccepts, rfl⟩
    obtain ⟨snapshot, hopen, hvisit⟩ := h.visits_iff.2 ⟨hauth, haccepts⟩
    obtain ⟨hread, rfl⟩ := snapshot.visitPages_collect_iff.1 hvisit
    rw [exportCommand_wal_quiet C h.quiet h.fresh _ rfl hopen hread]
    unfold report
    rw [h.stdout]

/-- A merged export returns, and leaves nothing when it fails. -/
theorem Merged.export_total (outputPath : Path) : ∃ result entry,
    exportCommand C world ⟨cipher, passphraseFile, true, inputPath, outputPath⟩ = some (result, entry) ∧
      ∀ e, result = .error e → entry = none := by
  -- page 1 of the main file decides whether the snapshot opens
  obtain ⟨opened, hopen⟩ : ∃ opened, Cli.openWalSnapshot C world inputPath cipher passphraseFile = some opened := by
    by_cases hauth : MainAuthenticates C world config passphrase main input
    · obtain ⟨salt, hsalt⟩ := hauth
      obtain ⟨snapshot, hopen, -⟩ := h.openWalSnapshot hsalt
      exact ⟨_, hopen⟩
    · obtain ⟨e, he⟩ := h.openWalSnapshot_error hauth
      exact ⟨_, he⟩
  unfold exportCommand report
  rw [if_pos rfl, hopen, h.stdout]
  rcases opened with e | snapshot
  · exact ⟨_, _, rfl, fun _ _ => h.fresh⟩
  obtain ⟨result, entry, hwrite, -, hleft⟩ := writeWalDatabase_allOrNothing outputPath snapshot world.faults world.destination
  dsimp only at hwrite
  simp only [Option.bind_eq_bind, Option.bind_some, hwrite]
  rcases result with e | _
  · refine ⟨_, _, rfl, fun _ _ => ?_⟩
    rcases hleft e rfl with hprior | ⟨-, cleanupError, exportError, hremove, -⟩
    · rw [hprior, h.fresh]
    -- removing the partial file does not fail
    · rw [h.quiet.remove] at hremove
      cases hremove
  · exact ⟨_, _, rfl, by rintro e ⟨⟩⟩

/-- The image `export --wal` selects is what the checkpointed file is accepted as. -/
theorem Merged.selects_iff {outputPath : Path} {image : Bytes} :
    Selects C world ⟨cipher, passphraseFile, true, inputPath, outputPath⟩ image ↔
      MainAuthenticates C world config passphrase main input ∧ Accepts C config passphrase commit.checkpoint image := by
  rw [← h.visits_iff]
  constructor
  · rintro (⟨⟨⟩⟩ | ⟨-, opened, visited⟩)
    exact ⟨_, opened, visited⟩
  · rintro ⟨snapshot, hopen, hvisit⟩
    exact .wal rfl hopen hvisit

/-- Where page 1 has no frame, it authenticates in the main file if it does in the checkpointed one. -/
theorem Merged.mainAuthenticates (hfirst : commit.frame 1 = none) (hwhole : config.pageSize ∣ main.length)
    (hcount : main.length / config.pageSize < 2 ^ 32) {plain : Bytes}
    (haccepts : Accepts C config passphrase commit.checkpoint plain) :
    MainAuthenticates C world config passphrase main input := by
  obtain ⟨salt, count, hsalt, hlen, hpos, hlt⟩ := haccepts.whole
  obtain ⟨hne, -, hopens⟩ := (accepts_iff_pages hsalt hlen hpos hlt).1 haccepts
  have hpage := hopens .min hpos
  -- page 1 of the checkpointed file is the main file's own
  have hcommit : commit.page .min = main.take config.pageSize := by
    unfold Commit.page
    rw [show commit.frame NonZeroU32.min.get = none from hfirst, Option.getD_none, pageOf_min]
  have hone : NonZeroU32.min.get ≤ commit.pageCount := commit.pageCount_pos
  rw [commit.pageOf_checkpoint hone, hcommit] at hpage
  obtain ⟨-, -, -, -, -, -, hutf8⟩ := walInput_open_eq_ok_iff.1 h.selected
  obtain ⟨bytes, hbytes⟩ := Option.ne_none_iff_exists'.1 hutf8
  have hle : config.pageSize ≤ main.length := by
    have := commit.covered Nat.one_pos commit.pageCount_pos hfirst
    exact (Nat.le_mul_of_pos_left _ this).trans (Nat.div_mul_le_self _ _)
  have htext : toStr input.path = some input.path.bytes := by rw [hbytes, toStr_eq hbytes]
  exact ⟨salt, authenticates_file hne htext h.opened hle hwhole hcount (hsalt.trans commit.take_checkpoint) hpage⟩

/-- With a WAL that contributes no frames an export selects the image of the main file alone. -/
theorem Merged.selects_main_iff (hnone : ∀ number, commit.frame number = none)
    (hwhole : commit.pageCount * config.pageSize = main.length) {world' : World} {cipher' : CipherArgs}
    {passphraseFile' : Option Path} {inputPath' : Path}
    (h' : Undisturbed world' cipher' passphraseFile' inputPath' config passphrase main) {outputPath outputPath' : Path}
    {image : Bytes} : Selects C world ⟨cipher, passphraseFile, true, inputPath, outputPath⟩ image ↔
      Selects C world' ⟨cipher', passphraseFile', false, inputPath', outputPath'⟩ image := by
  rw [h.selects_iff, h'.selects_iff, commit.checkpoint_eq_main hnone hwhole]
  apply and_iff_right_of_imp
  intro haccepts
  -- the condition on the main file is then no condition
  refine h.mainAuthenticates (hnone 1) ⟨commit.pageCount, by rw [← hwhole, Nat.mul_comm]⟩ ?_
    (commit.checkpoint_eq_main hnone hwhole ▸ haccepts)
  rw [← hwhole, Nat.mul_div_cancel _ config.pageSize_pos]
  exact commit.pageCount_lt

/-- So the two exports of such a database are one file exactly when the header records rollback journaling. -/
theorem Merged.exports_eq_iff (hnone : ∀ number, commit.frame number = none)
    (hwhole : commit.pageCount * config.pageSize = main.length) {world' : World} {cipher' : CipherArgs}
    {passphraseFile' : Option Path} {inputPath' : Path}
    (h' : Undisturbed world' cipher' passphraseFile' inputPath' config passphrase main) {outputPath outputPath' : Path}
    {merged plain : Bytes}
    (hmerged : exportCommand C world ⟨cipher, passphraseFile, true, inputPath, outputPath⟩ = some (.ok (), some (.file merged)))
    (hmain : exportCommand C world' ⟨cipher', passphraseFile', false, inputPath', outputPath'⟩ =
      some (.ok (), some (.file plain))) : plain = merged ↔ RollbackMode plain := by
  obtain ⟨image, hselects, -, hentry⟩ := exportCommand_content C world hmerged
  obtain ⟨image', hselects', hlen, hentry'⟩ := exportCommand_content C world' hmain
  obtain rfl := hselects'.unique ((h.selects_main_iff hnone hwhole h').1 hselects)
  cases hentry
  cases hentry'
  exact standalone_eq_self_iff hlen

end Merged

/-! ## The one-page database -/

theorem commands_decide_format_sample :
    (verify sample (.of samplePage) ⟨sampleCipher, none, false, samplePath⟩ = some (.ok ()) ↔
      samplePassphrase ≠ [] ∧ ∃ (image : Image sampleConfig) (sealing : Sealing sampleConfig),
        image.encode sample samplePassphrase sealing = samplePage) ∧
    (∀ (image : Image sampleConfig) (sealing : Sealing sampleConfig), samplePassphrase ≠ [] →
      image.encode sample samplePassphrase sealing = samplePage →
      exportCommand sample (.of samplePage) ⟨sampleCipher, none, false, samplePath, sampleOutput⟩ =
        some (.ok (), some (.file image.bytes))) ∧
    ((∀ (image : Image sampleConfig) (sealing : Sealing sampleConfig), samplePassphrase ≠ [] →
        image.encode sample samplePassphrase sealing ≠ samplePage) →
      ∃ e, exportCommand sample (.of samplePage) ⟨sampleCipher, none, false, samplePath, sampleOutput⟩ = some (.error e, none)) :=
  commands_decide_format (undisturbed_of samplePage) sampleOutput

/-- A WAL with one frame, the update of page 1: the header, the frame's header, with the checksums SQLite gives them,
and the page. -/
def updatingWal : Bytes :=
  [0x37, 0x7f, 0x06, 0x82, 0x00, 0x2d, 0xe2, 0x18, 0x00, 0x00, 0x04, 0x00, 0x00, 0x00, 0x00, 0x00,
    0x00, 0x00, 0x00, 0x01, 0x00, 0x00, 0x00, 0x02, 0xd5, 0xcf, 0x03, 0x13, 0x8f, 0xaa, 0xda, 0xb8] ++
  ([0x00, 0x00, 0x00, 0x01, 0x00, 0x00, 0x00, 0x01, 0x00, 0x00, 0x00, 0x01, 0x00, 0x00, 0x00, 0x02,
    0xe8, 0xfb, 0x37, 0x7d, 0xf6, 0xa6, 0x28, 0x99] ++ updatedPage)

theorem length_updatingWal : updatingWal.length = 1080 := by
  unfold updatingWal
  simp only [List.length_append, length_updatedPage, List.length_cons, List.length_nil]

/-- A database with that WAL beside it, and an engine that reads the page from its frame. -/
def updatingWorld (main : Bytes) : World := { World.of main with
  fs := .flat fun path =>
    if path = samplePath then some main else if path = companion samplePath walSuffix then some updatingWal else none
  engine := { (World.of main).engine with
    readPage := fun _ number => if number = 1 then .ok updatedPlain else .error (.other 0) } }

/-- The commit of that frame, over a main file of one page with the sample's salt. -/
def updatingCommit (main : Bytes) (hlen : main.length = 1024) (hsalt : main.take 16 = samplePage.take 16) :
    Commit sampleConfig main (some ((⟨samplePath, 1080⟩ : WalInput).frames sampleConfig)) where
  pageCount := 1
  frame number := if number = 1 then some updatedPage else none
  pageCount_pos := Nat.one_pos
  pageCount_lt := NonZeroU32.one_lt
  bounded := by rw [hlen]; decide
  length_frame {number payload} h := by
    split at h
    · cases h; exact length_updatedPage
    · cases h
  covered {number} hpos hle h := by
    rw [if_pos (by omega)] at h; cases h
  salt {payload} h := by cases h; rw [hsalt]; exact take_updatedPage
  mainOnly h := by cases h

section Updating

variable {main : Bytes} (hlen : main.length = 1024) (hsalt : main.take 16 = samplePage.take 16)

theorem derive_versioned : KeyMaterial.derive versioned sampleConfig samplePassphrase sampleSalt = sampleKeys := derive_sample

theorem merged_updating : Merged versioned (updatingWorld main) sampleCipher none samplePath sampleConfig samplePassphrase main
    ⟨samplePath, 1080⟩ (updatingCommit main hlen hsalt) where
  configured := sampleCipher_config
  given := rfl
  selected := by
    have hselected : WalInput.open (updatingWorld main).fs samplePath = .ok ⟨samplePath, updatingWal.length⟩ := rfl
    rwa [length_updatingWal] at hselected
  opened := rfl
  platformIo := rfl
  openDatabase := rfl
  connect := rfl
  beginRead := rfl
  pageCount := rfl
  serves salt hstart := by
    have hsample : sampleSalt.toList = samplePage.take 16 := by decide +kernel
    obtain rfl : salt = sampleSalt := Arr.ext (hstart.trans (hsalt.trans hsample.symm))
    apply serves_of_openPage (updatingCommit main hlen hsalt)
    intro pageNo hle
    obtain rfl : pageNo = .min := NonZeroU32.ext (Nat.le_antisymm hle pageNo.pos)
    rw [derive_versioned, show (⟨sampleConfig, sampleKeys⟩ : PageDecryptor) = sampleDecryptor from rfl,
      show (updatingCommit main hlen hsalt).page .min = updatedPage from rfl, openPage_updatedPage]
    rfl
  fresh := rfl
  quiet := ⟨rfl, fun _ => rfl, rfl, rfl⟩
  stdout := rfl

/-- The checkpointed file is the page of the frame, whatever the main file has in its place. -/
theorem checkpoint_updatingCommit : (updatingCommit main hlen hsalt).checkpoint = updatedPage := by
  unfold Commit.checkpoint
  rw [show pageNumbers (updatingCommit main hlen hsalt).pageCount = [.min] from rfl, List.flatMap_singleton]
  rfl

end Updating

theorem accepts_updatedPage : Accepts versioned sampleConfig samplePassphrase updatedPage updatedPlain := by
  have hplain : (pageNumbers 1).flatMap (fun _ => updatedPlain) = updatedPlain := by
    rw [show pageNumbers 1 = [.min] from rfl, List.flatMap_singleton]
  have hsalt : sampleSalt.toList = updatedPage.take 16 := by decide +kernel
  have hlen : updatedPage.length = 1 * sampleConfig.pageSize := length_updatedPage
  have hpage : updatedPage.take sampleConfig.pageSize = updatedPage := List.take_of_length_le length_updatedPage.le
  rw [← hplain]
  refine accepts_of_pages (by decide) hsalt hlen Nat.one_pos NonZeroU32.one_lt fun pageNo hle => ?_
  obtain rfl : pageNo = .min := NonZeroU32.ext (Nat.le_antisymm hle pageNo.pos)
  rw [derive_versioned, pageOf_min, hpage]
  exact openPage_updatedPage

theorem mainAuthenticates_samplePage : MainAuthenticates versioned (updatingWorld samplePage) sampleConfig samplePassphrase
    samplePage ⟨samplePath, 1080⟩ := by
  refine ⟨sampleSalt, ?_⟩
  rw [length_samplePage]
  exact authenticates_of_openPage derive_versioned openPage_versioned rfl

/-- The sample page with all but its salt gone. -/
def damagedPage : Bytes := sampleSalt.toList ++ List.replicate 1008 0

theorem length_damagedPage : damagedPage.length = 1024 := by
  unfold damagedPage
  rw [List.length_append, List.length_replicate, Arr.length_eq]

set_option maxRecDepth 8000 in
theorem openPage_damagedPage : sampleDecryptor.openPage versioned .min damagedPage = .error (.authenticationFailed 1) := by
  decide +kernel

theorem not_mainAuthenticates_damagedPage : ¬ MainAuthenticates versioned (updatingWorld damagedPage) sampleConfig
    samplePassphrase damagedPage ⟨samplePath, 1080⟩ := by
  rintro ⟨salt, hauth⟩
  obtain ⟨hsalt, plain, hpage⟩ := hauth.first_page
  have hsample : sampleSalt.toList = damagedPage.take 16 := by decide +kernel
  obtain rfl : salt = sampleSalt := Arr.ext (hsalt.trans hsample.symm)
  have hwhole : damagedPage.take sampleConfig.pageSize = damagedPage := List.take_of_length_le length_damagedPage.le
  rw [derive_versioned, hwhole] at hpage
  cases openPage_damagedPage.symm.trans hpage

end Veilite.Cli

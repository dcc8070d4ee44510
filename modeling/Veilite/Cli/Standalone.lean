/-
Whether an export is a standalone image: `export --wal` sets the two journal mode bytes of the header it
writes, the main-only export writes the header as it is. So the latter is standalone exactly when the
database's own header already is, and on other databases the two disagree on one image.
-/
import Veilite.Cli.Agreement

namespace Veilite.Cli

open Buffer Veilite.Core Traverse Turso

/-! ## Standalone images -/

/-- Both journal mode bytes of the header record rollback journaling. -/
def RollbackMode (image : Bytes) : Prop := image[18]? = some 1 ∧ image[19]? = some 1

instance (image : Bytes) : Decidable (RollbackMode image) := inferInstanceAs (Decidable (_ ∧ _))

/-- `content` is the image with its two journal mode bytes set to 1. -/
structure StandaloneCopy (image content : Bytes) : Prop where
  length : content.length = image.length
  rollback : RollbackMode content
  others : ∀ i, i ≠ 18 → i ≠ 19 → content[i]? = image[i]?

section Image

variable {image : Bytes}

theorem standaloneCopy_standalone (h : 20 ≤ image.length) : StandaloneCopy image (standalone image) where
  length := by unfold standalone; rw [List.length_set, List.length_set]
  rollback := by
    unfold standalone
    constructor
    · rw [List.getElem?_set_ne (by omega), List.getElem?_set_self (by omega)]
    · rw [List.getElem?_set_self (by rw [List.length_set]; omega)]
  others i h18 h19 := by
    unfold standalone
    rw [List.getElem?_set_ne (by omega), List.getElem?_set_ne (by omega)]

/-- An image is its own standalone copy when its header records rollback journaling. -/
theorem standaloneCopy_self_iff : StandaloneCopy image image ↔ RollbackMode image :=
  ⟨fun h => h.rollback, fun h => ⟨rfl, h, fun _ _ _ => rfl⟩⟩

theorem standalone_eq_self_iff (h : 20 ≤ image.length) : image = standalone image ↔ RollbackMode image := by
  constructor
  · intro heq
    rw [heq]
    exact (standaloneCopy_standalone h).rollback
  · rintro ⟨hwrite, hread⟩
    obtain ⟨_, hwrite⟩ := List.getElem?_eq_some_iff.1 hwrite
    obtain ⟨_, hread⟩ := List.getElem?_eq_some_iff.1 hread
    have hset18 : image.set 18 1 = image := hwrite ▸ List.set_getElem_self _
    have hset19 : image.set 19 1 = image := hread ▸ List.set_getElem_self _
    unfold standalone
    rw [hset18, hset19]

end Image

/-! ## The selected image -/

section Export

variable (C : Primitives) (world : World)

/-- The plaintext image a run selects: the pages `1..=page_count` one after another, as `read_page_into`
and with `--wal` `visit_pages` delivers them. -/
inductive Selects (args : ExportArgs) (image : Bytes) : Prop
  | main {reader : SqlCipherReader Unit IoError} (mode : args.wal = false)
    (opened : openReader C world args.inputPath args.cipher args.passphraseFile = .ok reader)
    (visited : reader.visitPages C collect [] = some (.ok (), image))
  | wal {snapshot : WalSnapshot} (mode : args.wal = true)
    (opened : openWalSnapshot C world args.inputPath args.cipher args.passphraseFile = some (.ok snapshot))
    (visited : snapshot.visitPages collect [] = some (.ok (), image))

variable {C world}

theorem Selects.unique {args : ExportArgs} {image image' : Bytes} (h : Selects C world args image)
    (h' : Selects C world args image') : image = image' := by
  cases h with
  | main mode opened visited =>
    cases h' with
    | main _ opened' visited' =>
      rw [opened] at opened'
      cases opened'
      rw [visited] at visited'
      cases visited'
      rfl
    | wal mode' => rw [mode] at mode'; cases mode'
  | wal mode opened visited =>
    cases h' with
    | main mode' => rw [mode] at mode'; cases mode'
    | wal _ opened' visited' =>
      rw [opened] at opened'
      cases opened'
      rw [visited] at visited'
      cases visited'
      rfl

variable (C world)

/-- A successful `export --wal` read every page of a snapshot and left its image, made standalone. -/
theorem exportCommand_wal_ok {args : ExportArgs} {entry : Option Entry} (hwal : args.wal = true)
    (h : exportCommand C world args = some (.ok (), entry)) :
    ∃ snapshot, openWalSnapshot C world args.inputPath args.cipher args.passphraseFile = some (.ok snapshot) ∧
      (∀ pageNo : NonZeroU32, pageNo.get ≤ snapshot.pageCount → ∃ bytes, snapshot.selectedPage pageNo = .ok bytes) ∧
      entry = some (.file (standalone snapshot.image)) := by
  unfold exportCommand at h
  rw [if_pos hwal] at h
  rcases hopen : openWalSnapshot C world args.inputPath args.cipher args.passphraseFile with _ | opened
  · rw [hopen] at h; cases h
  rw [hopen] at h
  rcases opened with e | snapshot
  · cases h
  obtain ⟨result, written, hwrite, himage, -⟩ := writeWalDatabase_allOrNothing args.outputPath snapshot world.faults
    world.destination
  dsimp only at hwrite
  simp only [Option.bind_eq_bind, Option.bind_some, hwrite] at h
  rcases result with e | _
  · cases h
  obtain ⟨-, content, rfl, hread, rfl⟩ := himage rfl
  refine ⟨snapshot, rfl, hread, ?_⟩
  simp only [Option.pure_def, Option.some.injEq, Prod.mk.injEq] at h
  exact h.2.symm

theorem length_image_ge {snapshot : WalSnapshot}
    (h : ∀ pageNo : NonZeroU32, pageNo.get ≤ snapshot.pageCount → ∃ bytes, snapshot.selectedPage pageNo = .ok bytes) :
    20 ≤ snapshot.image.length := by
  obtain ⟨bytes, hbytes⟩ := h .min snapshot.pageCount_pos
  have hlen : snapshot.image.length = snapshot.pageCount * snapshot.pageSize := by
    apply length_flatMap_pageNumbers snapshot.pageCount_lt
    intro pageNo hle
    obtain ⟨bytes, hbytes⟩ := h pageNo hle
    rw [snapshot.pageBytes_of_selectedPage hbytes, snapshot.selectedPage_length hbytes]
  -- one page already holds the header
  have hsize := selectedPage_ge hbytes
  rw [snapshot.selectedPage_length hbytes] at hsize
  rw [hlen]
  exact Nat.le_trans hsize (Nat.le_mul_of_pos_left _ snapshot.pageCount_pos)

/-- What a successful export leaves: the selected image, made standalone with `--wal`. -/
theorem exportCommand_content {args : ExportArgs} {entry : Option Entry}
    (h : exportCommand C world args = some (.ok (), entry)) :
    ∃ image, Selects C world args image ∧ 20 ≤ image.length ∧
      entry = some (.file (if args.wal then standalone image else image)) := by
  obtain ⟨cipher, passphraseFile, wal, inputPath, outputPath⟩ := args
  cases wal with
  | false =>
    obtain ⟨reader, hopen, hread, -, rfl⟩ := exportCommand_ok C h
    refine ⟨_, .main rfl hopen (reader.visitPages_collect C hread), ?_, rfl⟩
    have hsize := reader.decryptor.config.pageSize_ge
    have hpos := Nat.mul_le_mul_right reader.pageSize reader.pageCount_pos
    rw [reader.length_plaintextImage C, ← reader.fileSize_eq]
    exact Nat.le_trans (Nat.le_trans (show 20 ≤ 1024 by decide) hsize) (by rwa [Nat.one_mul] at hpos)
  | true =>
    obtain ⟨snapshot, hopen, hread, rfl⟩ := exportCommand_wal_ok C world rfl h
    exact ⟨_, .wal rfl hopen (snapshot.visitPages_collect hread), length_image_ge hread, rfl⟩

/-- A successful export is a standalone copy of the selected image exactly when it was made with `--wal` or
the image's own header records rollback journaling. A main-only export and one with `--wal` of the same
image, as of a database whose WAL contributes no frames, are identical exactly in the latter case. -/
theorem export_standalone_iff {args : ExportArgs} {entry : Option Entry}
    (h : exportCommand C world args = some (.ok (), entry)) :
    ∃ content image, entry = some (.file content) ∧ Selects C world args image ∧
      (StandaloneCopy image content ↔ args.wal = true ∨ RollbackMode image) ∧
      ∀ (world' : World) (args' : ExportArgs) (content' : Bytes), args.wal = false → args'.wal = true →
        Selects C world' args' image → exportCommand C world' args' = some (.ok (), some (.file content')) →
        (content = content' ↔ RollbackMode image) := by
  obtain ⟨image, hselects, hlen, rfl⟩ := exportCommand_content C world h
  refine ⟨_, image, rfl, hselects, ?_, fun world' args' content' hmain hwal hsame h' => ?_⟩
  · cases hwal : args.wal with
    | false => simpa using standaloneCopy_self_iff
    | true => simpa using standaloneCopy_standalone hlen
  · obtain ⟨image', hselects', -, hentry⟩ := exportCommand_content C world' h'
    obtain rfl := hsame.unique hselects'
    rw [if_pos hwal, Option.some.injEq, Entry.file.injEq] at hentry
    rw [hentry, hmain, if_neg Bool.false_ne_true]
    exact standalone_eq_self_iff hlen

end Export

/-! ## The one-page database, whose header records write-ahead logging -/

def sampleExport : ExportArgs := ⟨sampleCipher, none, false, samplePath, sampleOutput⟩

theorem reads_of_sampleReader (pageNo : NonZeroU32) (h : pageNo.get ≤ sampleReader.pageCount) :
    ∃ plain, sampleReader.Reads sample pageNo plain := by
  obtain rfl : pageNo = .min := NonZeroU32.ext (Nat.le_antisymm h pageNo.pos)
  exact ⟨samplePlain, SqlCipherReader.reads_sampleReader⟩

theorem exportCommand_sample (outputPath : Path) : exportCommand sample (.of samplePage)
    { sampleExport with outputPath := outputPath } = some (.ok (), some (.file samplePlain)) := by
  have hread : readAll sample sampleReader = .ok () := (readAll_eq_ok_iff sample).2 reads_of_sampleReader
  unfold sampleExport
  rw [exportCommand_quiet sample (undisturbed_of samplePage).quiet rfl, openReader_sample]
  simp only [exportOutcome, hread, SqlCipherReader.plaintextImage_sampleReader]
  rfl

theorem selects_sample : Selects sample (.of samplePage) sampleExport samplePlain := by
  refine .main rfl openReader_sample ?_
  rw [sampleReader.visitPages_collect sample reads_of_sampleReader, SqlCipherReader.plaintextImage_sampleReader]

def sampleWalExport : ExportArgs := { sampleExport with wal := true }

theorem openWalSnapshot_sample : ∃ snapshot,
    openWalSnapshot sample sampleWalWorld samplePath sampleCipher none = some (.ok snapshot) ∧
      (∀ pageNo : NonZeroU32, pageNo.get ≤ snapshot.pageCount → ∃ bytes, snapshot.selectedPage pageNo = .ok bytes) ∧
      snapshot.image = samplePlain := by
  have hauth : Authenticates sample sampleWalWorld.fs samplePath sampleConfig samplePassphrase (FileSource samplePage)
      1024 sampleSalt := authenticates_sample rfl
  have hinput : WalInput.open sampleWalWorld.fs samplePath = .ok ⟨samplePath, 0⟩ := by decide +kernel
  have hconnect : ∃ connection registry, (⟨samplePath, 0⟩ : WalInput).connect sample sampleWalWorld.fs sampleWalWorld.engine
      sampleConfig samplePassphrase emptyRegistry = some (.ok (connection, 1), registry) ∧
      connection.pager 1 = .ok samplePlain := by
    unfold WalInput.connect openConnection
    rw [openCodec_of_authenticates _ _ _ _ _ _ hauth]
    exact ⟨_, _, rfl, rfl⟩
  obtain ⟨connection, registry, hconnect, hpager⟩ := hconnect
  have hlen : samplePlain.length = 1024 := by decide +kernel
  let snapshot : WalSnapshot := ⟨connection, 1, 1024, by decide, by decide, ⟨sampleConfig, rfl⟩⟩
  have hpage : snapshot.selectedPage .min = .ok samplePlain := by
    unfold WalSnapshot.selectedPage
    rw [show snapshot.connection.pager NonZeroU32.min.get = .ok samplePlain from hpager]
    exact if_neg (not_not.2 hlen)
  refine ⟨snapshot, ?_, fun pageNo hle => ?_, ?_⟩
  · unfold openWalSnapshot WalInput.snapshot
    rw [sampleCipher_config, hinput]
    have hpassphrase : sampleWalWorld.passphrase none = .ok samplePassphrase := rfl
    rw [hpassphrase]
    show (((WalInput.connect sample sampleWalWorld.fs sampleWalWorld.engine ⟨samplePath, 0⟩ sampleConfig samplePassphrase
      emptyRegistry).bind _).bind _) = _
    rw [hconnect]
    rfl
  · obtain rfl : pageNo = .min := NonZeroU32.ext (Nat.le_antisymm hle pageNo.pos)
    exact ⟨samplePlain, hpage⟩
  · unfold WalSnapshot.image
    rw [show pageNumbers snapshot.pageCount = [.min] from rfl, List.flatMap_singleton]
    exact snapshot.pageBytes_of_selectedPage hpage

theorem exportCommand_wal_sample :
    exportCommand sample sampleWalWorld sampleWalExport = some (.ok (), some (.file (standalone samplePlain))) := by
  obtain ⟨snapshot, hopen, hread, himage⟩ := openWalSnapshot_sample
  have hquiet : sampleWalWorld.faults.Quiet := ⟨rfl, fun _ => rfl, rfl, rfl⟩
  rw [exportCommand_wal_quiet sample hquiet rfl sampleWalExport rfl hopen hread, himage]
  rfl

theorem selects_wal_sample : Selects sample sampleWalWorld sampleWalExport samplePlain := by
  obtain ⟨snapshot, hopen, hread, himage⟩ := openWalSnapshot_sample
  refine .wal rfl hopen ?_
  rw [snapshot.visitPages_collect hread, himage]

/-- Of one image whose header records write-ahead logging, the main-only export still does, and the export
`--wal` makes of it with an empty WAL is another file. -/
theorem export_not_standalone :
    exportCommand sample (.of samplePage) sampleExport = some (.ok (), some (.file samplePlain)) ∧
      Selects sample (.of samplePage) sampleExport samplePlain ∧ ¬ StandaloneCopy samplePlain samplePlain ∧
      exportCommand sample sampleWalWorld sampleWalExport = some (.ok (), some (.file (standalone samplePlain))) ∧
      Selects sample sampleWalWorld sampleWalExport samplePlain ∧ samplePlain ≠ standalone samplePlain := by
  have hmode : ¬ RollbackMode samplePlain := by decide +kernel
  have hlen : 20 ≤ samplePlain.length := by decide +kernel
  refine ⟨exportCommand_sample sampleOutput, selects_sample, ?_, exportCommand_wal_sample, selects_wal_sample, ?_⟩
  · rwa [standaloneCopy_self_iff]
  · rwa [Ne, standalone_eq_self_iff hlen]

theorem export_standalone_iff_sample :
    (StandaloneCopy samplePlain samplePlain ↔ RollbackMode samplePlain) ∧
      (samplePlain = standalone samplePlain ↔ RollbackMode samplePlain) := by
  obtain ⟨content, image, hentry, hselects, hcopy, hsame⟩ :=
    export_standalone_iff sample (.of samplePage) (exportCommand_sample sampleOutput)
  cases hentry
  obtain rfl := hselects.unique selects_sample
  have hagain := hsame sampleWalWorld sampleWalExport (standalone samplePlain) rfl rfl selects_wal_sample exportCommand_wal_sample
  exact ⟨by simpa [sampleExport] using hcopy, hagain⟩

end Veilite.Cli

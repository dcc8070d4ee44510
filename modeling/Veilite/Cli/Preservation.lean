/-
What an export leaves of the snapshot it reads: no entry changes that was there, but the new file may itself come to
lie beside the input, where every later command takes it for a companion.
-/
import Veilite.Cli.ExitStatus

namespace Veilite.Cli

open Buffer Veilite.Core Traverse Turso

/-! ## Exporting in a file system -/

section Run

variable (state : FileSystem) (outputPath : Path)

/-- An entry as an export meets it at its destination. -/
def Entry.of : FileTree.Node Bytes Bytes IoError → Entry
  | .file content => .file content
  | .directory => .other 0
  | .link _ _ => .other 1
  | .unreadable _ => .other 2

/-- The entry an output path names; a link is not followed. -/
def destinationEntry : Option Entry :=
  match state.locate outputPath with
  | .error _ => none
  | .ok location => (state.tree.entries location).map Entry.of

/-- A world in which the files are those of a file system. Where the output path has no place, creating it fails. -/
def World.on (world : World) : World := { world with
  fs := state.view
  destination := destinationEntry state outputPath
  faults := { world.faults with
    create := match world.faults.create, state.locate outputPath with
      | some e, _ => some e
      | none, .error e => some e
      | none, .ok _ => none } }

/-- The file system with the entry a run leaves at its output path. The one change it can be is a new file; none is
for any other. -/
def leave (entry : Option Entry) : Option FileSystem :=
  if entry = destinationEntry state outputPath then some state
  else match entry with
  | some (.file content) => match hlocate : state.locate outputPath with
    | .error _ => none
    | .ok _ => if hfree : _ then some (FileSystem.create (FileSystem.placeOf hlocate hfree) content) else none
  | _ => none

/-- `export`, and the file system after it. -/
def exportIn (C : Primitives) (world : World) (args : ExportArgs) : Option (Except CliError Unit × FileSystem) := do
  let ran ← exportCommand C (world.on state args.outputPath) args
  let after ← leave state args.outputPath ran.2
  return (ran.1, after)

end Run

/-! ## What is to be preserved -/

/-- The snapshot at a path is intact: every entry is as it was, and so are the canonical path, the companion lookups
beside both paths, and with them what each command's checks make of it. -/
structure Preserved (state after : FileSystem) (path : Path) : Prop where
  entries : ∀ location, state.tree.entries location ≠ none → after.tree.entries location = state.tree.entries location
  canonical : after.view.canonicalize path = state.view.canonicalize path
  companions : ∀ beside, IsCompanion state path beside →
    after.view.symlinkMetadata beside = state.view.symlinkMetadata beside
  main : ∀ resolved, mainPreflight after.view path = .ok resolved ↔ mainPreflight state.view path = .ok resolved
  wal : ∀ input, WalInput.open after.view path = .ok input ↔ WalInput.open state.view path = .ok input
  inspect : ∀ resolved, state.view.canonicalize path = .ok resolved → ∀ suffix ∈ [walSuffix, journalSuffix],
    presence after.view path resolved suffix = presence state.view path resolved suffix

/-- The output path names the place of a companion of the input. -/
def NamesCompanion (state : FileSystem) (inputPath outputPath : Path) : Prop :=
  ∃ beside location, IsCompanion state inputPath beside ∧ state.locate beside = .ok location ∧
    state.locate outputPath = .ok location

/-- A run gets to a file and leaves it: the input opens, the file can be created, and all of it is written and synced,
or else it cannot be removed. -/
def LeavesFile (C : Primitives) (world : World) (args : ExportArgs) : Prop :=
  ∃ opened, openInput C world args.wal args.inputPath args.cipher args.passphraseFile = some (.ok opened) ∧
    Fresh world ∧ (Complete world.faults opened ∨ ¬ Removed world.faults)

/-! ## One file or nothing -/

section Change

variable {C : Primitives} {world : World} {state : FileSystem} {args : ExportArgs}

theorem not_removed_iff {faults : Faults} : ¬ Removed faults ↔ ∃ e, faults.remove = some e ∧ e.kind ≠ .notFound := by
  unfold Removed
  push Not
  rfl

/-- A file that was complete, or could not be removed, is left. -/
theorem destinationEnd_fresh {faults : Faults} {path : Path} {prior : Option Entry} {verdict : Except CliError Unit}
    {content : Bytes} (hcreate : faults.create = none) (hprior : prior = none)
    (hleft : verdict = .ok () ∨ ¬ Removed faults) :
    (destinationEnd faults path prior verdict content).2 = some (.file content) := by
  unfold destinationEnd createNew
  rw [hcreate, hprior]
  rcases verdict with e | _
  · obtain ⟨cleanupError, hremove, hkind⟩ := not_removed_iff.1 (hleft.resolve_left (by rintro ⟨⟩))
    unfold cleanupFailedExport removeFile
    rw [hremove]
    exact if_neg hkind
  · rfl

/-- Otherwise the entry is what it was. -/
theorem destinationEnd_prior {faults : Faults} {path : Path} {prior : Option Entry} {verdict : Except CliError Unit}
    {content : Bytes} (h : ¬ ((faults.create = none ∧ prior = none) ∧ (verdict = .ok () ∨ ¬ Removed faults))) :
    (destinationEnd faults path prior verdict content).2 = prior := by
  unfold destinationEnd createNew
  rcases hcreate : faults.create with _ | source
  · rcases prior with _ | entry
    · have hgone : ¬ (verdict = .ok () ∨ ¬ Removed faults) := fun hleft => h ⟨⟨hcreate, rfl⟩, hleft⟩
      rcases verdict with e | _
      · have hremoved : Removed faults := by
          by_contra hstays
          exact hgone (.inr hstays)
        unfold cleanupFailedExport removeFile
        rcases hremove : faults.remove with _ | cleanupError
        · rfl
        · exact if_pos (hremoved cleanupError hremove)
      · exact absurd (.inl rfl) hgone
    · rfl
  · rfl

/-- A fresh destination is named by the output path, and free. -/
theorem Fresh.locate (hfresh : Fresh (world.on state args.outputPath)) :
    ∃ location, state.locate args.outputPath = .ok location ∧ state.tree.entries location = none := by
  have hcreate := hfresh.create
  have hentry := hfresh.destination
  change (match world.faults.create, state.locate args.outputPath with
    | some e, _ => some e
    | none, .error e => some e
    | none, .ok _ => none) = none at hcreate
  change destinationEntry state args.outputPath = none at hentry
  unfold destinationEntry at hentry
  rcases hlocate : state.locate args.outputPath with e | location
  · rw [hlocate] at hcreate
    rcases hfault : world.faults.create with _ | e'
    · rw [hfault] at hcreate; cases hcreate
    · rw [hfault] at hcreate; cases hcreate
  · rw [hlocate] at hentry
    exact ⟨location, rfl, Option.map_eq_none_iff.1 hentry⟩

/-- What is left there is a new file at that place. -/
theorem leave_file {outputPath : Path} {location : List Bytes} (hlocate : state.locate outputPath = .ok location)
    (hfree : state.tree.entries location = none) (content : Bytes) :
    leave state outputPath (some (.file content)) = some (FileSystem.create (FileSystem.placeOf hlocate hfree) content) := by
  have hne : some (.file content) ≠ destinationEntry state outputPath := by
    unfold destinationEntry
    rw [hlocate]
    dsimp only
    rw [hfree]
    rintro ⟨⟩
  unfold leave
  rw [if_neg hne]
  dsimp only
  split
  · rename_i e he
    rw [hlocate] at he
    cases he
  · rename_i location' hlocate'
    obtain rfl : location = location' := Except.ok.inj (hlocate.symm.trans hlocate')
    exact dif_pos hfree

theorem exportIn_of_run {result : Except CliError Unit} {entry : Option Entry} {after : FileSystem}
    (hrun : exportCommand C (world.on state args.outputPath) args = some (result, entry))
    (hleave : leave state args.outputPath entry = some after) : exportIn state C world args = some (result, after) := by
  unfold exportIn
  simp only [hrun, hleave, Option.bind_eq_bind, Option.bind_some, Option.pure_def]

/-- An export leaves the file system as it was, or with one new file where its output path says. -/
theorem exportIn_cases (C : Primitives) (world : World) (state : FileSystem) (args : ExportArgs) :
    ∃ result after, exportIn state C world args = some (result, after) ∧
      (¬ LeavesFile C (world.on state args.outputPath) args ∧ after = state ∨
        LeavesFile C (world.on state args.outputPath) args ∧ ∃ (place : state.Place) (content : Bytes),
          state.locate args.outputPath = .ok place.location ∧ after = FileSystem.create place content) := by
  obtain ⟨content, hexport⟩ := exportCommand_eq C (world.on state args.outputPath) args
  obtain ⟨opened, hopen⟩ := openInput_total C (world.on state args.outputPath) args.wal args.inputPath args.cipher
    args.passphraseFile
  have hrun := hexport (world.on state args.outputPath).stdout
  rw [hopen] at hrun
  have hsame : leave state args.outputPath (destinationEntry state args.outputPath) = some state := if_pos rfl
  rcases opened with e | opened
  · refine ⟨_, state, exportIn_of_run hrun hsame, .inl ⟨?_, rfl⟩⟩
    rintro ⟨opened, hopened, -⟩
    rw [hopen] at hopened
    cases hopened
  -- the input opened: the verdict on its pages decides
  by_cases hleaves : LeavesFile C (world.on state args.outputPath) args
  · obtain ⟨opened', hopened, hfresh, hleft⟩ := hleaves
    rw [hopen] at hopened
    cases hopened
    obtain ⟨location, hlocate, hfree⟩ := hfresh.locate
    have hfile : (exportEnd (world.on state args.outputPath) args opened content).2 = some (.file content) := by
      apply destinationEnd_fresh hfresh.create hfresh.destination
      rw [exportVerdict_eq_ok_iff]
      exact hleft
    have hleave : leave state args.outputPath (exportEnd (world.on state args.outputPath) args opened content).2 =
        some (FileSystem.create (FileSystem.placeOf hlocate hfree) content) := by
      rw [hfile]
      exact leave_file hlocate hfree content
    exact ⟨_, _, exportIn_of_run hrun hleave, .inr ⟨⟨opened, hopen, hfresh, hleft⟩, _, content, hlocate, rfl⟩⟩
  · have hprior : (exportEnd (world.on state args.outputPath) args opened content).2 = destinationEntry state args.outputPath := by
      apply destinationEnd_prior
      rintro ⟨⟨hcreate, hdestination⟩, hleft⟩
      rw [exportVerdict_eq_ok_iff] at hleft
      exact hleaves ⟨opened, hopen, ⟨hcreate, hdestination⟩, hleft⟩
    have hleave : leave state args.outputPath (exportEnd (world.on state args.outputPath) args opened content).2 = some state := by
      rw [hprior]
      exact hsame
    exact ⟨_, state, exportIn_of_run hrun hleave, .inl ⟨hleaves, rfl⟩⟩

end Change

/-! ## The input's companions -/

section Companions

variable {state after : FileSystem} {path : Path}

/-- What a mode selects, its path leads to. -/
theorem canonical_of_selects (hselects : (∃ resolved, SelectsMain state path resolved) ∨ ∃ input, SelectsWal state path input) :
    ∃ target, state.canonical path = .ok target := by
  rcases hselects with ⟨resolved, hmain⟩ | ⟨input, hwal⟩
  · obtain ⟨location, hcanonical, -⟩ := hmain.leads
    exact ⟨location, hcanonical⟩
  · obtain ⟨location, -, hcanonical, -⟩ := hwal.main
    exact ⟨location, hcanonical⟩

/-- Beside a path that resolves, a companion that can be inspected has a place. -/
theorem locate_of_inspectable {target : List Bytes} (hresolve : state.resolve path = .ok target) {suffix : Bytes}
    (hsuffix : suffix ∈ [walSuffix, journalSuffix]) (hknown : ¬ Uninspectable state.view (companion path suffix)) :
    ∃ location, state.locate (companion path suffix) = .ok location := by
  have hsuffixes : ∀ suffix ∈ [walSuffix, journalSuffix], slash ∉ suffix ∧ 3 ≤ suffix.length := by decide
  obtain ⟨hslash, hlen⟩ := hsuffixes _ hsuffix
  obtain ⟨dir, last, -, hlocate⟩ := FileSystem.locate_companion hresolve
  have hplace := hlocate suffix hslash hlen
  split at hplace
  · exact ⟨_, hplace⟩
  · exact absurd (uninspectable_of_tooLong hplace) hknown

/-- Of what a mode selects, every companion has a place. -/
theorem IsCompanion.locate (hselects : (∃ resolved, SelectsMain state path resolved) ∨ ∃ input, SelectsWal state path input)
    {beside : Path} (hbeside : IsCompanion state path beside) : ∃ location, state.locate beside = .ok location := by
  have hknown : ¬ Uninspectable state.view beside := by
    rcases hselects with ⟨resolved, hmain⟩ | ⟨input, hwal⟩
    · exact hmain.inspectable hbeside
    · exact hwal.inspectable hbeside
  rcases hbeside with hsuffix | ⟨hcanonical, hsuffix⟩
  · obtain ⟨target, htarget⟩ := canonical_of_selects hselects
    exact locate_of_inspectable (FileSystem.resolve_of_canonical htarget) hsuffix hknown
  · obtain ⟨target, htarget, rfl⟩ := FileSystem.canonicalize_eq_ok_iff.1 hcanonical
    exact locate_of_inspectable (FileSystem.resolve_pathOf_of_canonical htarget) hsuffix hknown

/-- With the same companion lookups, the same entries are missing. -/
theorem vacant_congr {beside : Path} (h : after.view.symlinkMetadata beside = state.view.symlinkMetadata beside) :
    after.Vacant beside ↔ state.Vacant beside := by
  rw [← FileSystem.vacant_iff, ← FileSystem.vacant_iff, h]

variable {place : state.Place} {content : Bytes}

/-- A new file elsewhere leaves a main-only input one. -/
theorem SelectsMain.create {resolved : Path} (h : SelectsMain state path resolved)
    (hlookup : ∀ beside, IsCompanion state path beside →
      (FileSystem.create place content).view.symlinkMetadata beside = state.view.symlinkMetadata beside) :
    SelectsMain (FileSystem.create place content) path resolved := by
  obtain ⟨location, hresolve, hresolved⟩ := h.leads
  have hcanonical := FileSystem.canonicalize_eq_ok_iff.2 ⟨location, hresolve, hresolved⟩
  refine ⟨⟨location, FileSystem.canonical_create hresolve, hresolved⟩, fun suffix hsuffix => ?_, fun suffix hsuffix => ?_⟩
  · exact (vacant_congr (hlookup _ (.given hsuffix))).2 (h.alone suffix hsuffix)
  · exact (vacant_congr (hlookup _ (.canonical hcanonical hsuffix))).2 (h.canonicalAlone suffix hsuffix)

/-- And one with a WAL. -/
theorem SelectsWal.create {input : WalInput} (h : SelectsWal state path input)
    (hlookup : ∀ beside, IsCompanion state path beside →
      (FileSystem.create place content).view.symlinkMetadata beside = state.view.symlinkMetadata beside) :
    SelectsWal (FileSystem.create place content) path input := by
  have hjournal : journalSuffix ∈ [walSuffix, journalSuffix] := List.mem_cons_of_mem _ (List.mem_cons_self ..)
  obtain ⟨location, file, hresolve, hentry, hpath⟩ := h.main
  obtain ⟨wal, walFile, hwal, hwalEntry, hlen, hsame⟩ := h.wal
  have hcanonical := FileSystem.canonicalize_eq_ok_iff.2 ⟨location, hresolve, hpath⟩
  refine ⟨⟨location, file, FileSystem.canonical_create hresolve, ?_, hpath⟩, h.utf8, ?_, ?_, wal, walFile,
    FileSystem.resolve_create hwal, ?_, hlen, ?_⟩
  · rw [FileSystem.create_entries (by rw [hentry]; exact Option.some_ne_none _), hentry]
  · exact (vacant_congr (hlookup _ (.given hjournal))).2 h.journal
  · exact (vacant_congr (hlookup _ (.canonical hcanonical hjournal))).2 h.canonicalJournal
  · rw [FileSystem.create_entries (by rw [hwalEntry]; exact Option.some_ne_none _), hwalEntry]
  · rcases hsame with hvacant | hresolves
    · exact .inl ((vacant_congr (hlookup _ (.given (List.mem_cons_self ..)))).2 hvacant)
    · exact .inr (FileSystem.canonical_create hresolves)

/-- When no lookup of a companion changes, the snapshot a mode has selected is intact. -/
theorem preserved_create (hselects : (∃ resolved, SelectsMain state path resolved) ∨ ∃ input, SelectsWal state path input)
    (hlookup : ∀ beside, IsCompanion state path beside →
      (FileSystem.create place content).view.symlinkMetadata beside = state.view.symlinkMetadata beside) :
    Preserved state (FileSystem.create place content) path where
  entries location h := FileSystem.create_entries h
  canonical := by
    obtain ⟨target, hcanonical⟩ := canonical_of_selects hselects
    rw [FileSystem.canonicalize_eq_ok_iff.2 ⟨target, hcanonical, rfl⟩]
    exact FileSystem.canonicalize_eq_ok_iff.2 ⟨target, FileSystem.canonical_create hcanonical, rfl⟩
  companions := hlookup
  main resolved := by
    rw [mainPreflight_iff_selectsMain, mainPreflight_iff_selectsMain]
    refine ⟨fun h => ?_, fun h => h.create hlookup⟩
    rcases hselects with ⟨selected, hmain⟩ | ⟨input, hwal⟩
    · rw [h.unique (hmain.create hlookup)]
      exact hmain
    · exact absurd h (hwal.create hlookup).not_selectsMain
  wal input := by
    rw [open_iff_selectsWal, open_iff_selectsWal]
    refine ⟨fun h => ?_, fun h => h.create hlookup⟩
    rcases hselects with ⟨resolved, hmain⟩ | ⟨selected, hwal⟩
    · exact absurd (hmain.create hlookup) h.not_selectsMain
    · rw [h.unique (hwal.create hlookup)]
      exact hwal
  inspect resolved hcanonical suffix hsuffix := by
    unfold presence companionExists
    rw [hlookup _ (.given hsuffix), hlookup _ (.canonical hcanonical hsuffix)]

theorem preserved_refl : Preserved state state path :=
  ⟨fun _ _ => rfl, rfl, fun _ _ => rfl, fun _ => Iff.rfl, fun _ => Iff.rfl, fun _ _ _ _ => rfl⟩

/-- A reader was opened past the main-only checks. -/
theorem mainPreflight_of_openReader {C : Primitives} {world : World} {cipher : CipherArgs} {passphraseFile : Option Path}
    {reader : SqlCipherReader Unit IoError} (h : openReader C world path cipher passphraseFile = .ok reader) :
    ∃ resolved, mainPreflight world.fs path = .ok resolved := by
  rw [openReader_eq] at h
  obtain ⟨config, -, h⟩ := bind_eq_ok_iff.1 h
  obtain ⟨resolved, hresolved, -⟩ := bind_eq_ok_iff.1 h
  exact ⟨resolved, mapError_eq_ok_iff.1 hresolved⟩

/-- And a snapshot past those of `WalInput::open`. -/
theorem open_of_openWalSnapshot {C : Primitives} {world : World} {cipher : CipherArgs} {passphraseFile : Option Path}
    {snapshot : WalSnapshot} (h : openWalSnapshot C world path cipher passphraseFile = some (.ok snapshot)) :
    ∃ input, WalInput.open world.fs path = .ok input := by
  unfold openWalSnapshot at h
  split at h
  · cases h
  · rename_i hchecked
    obtain ⟨config, -, hchecked⟩ := bind_eq_ok_iff.1 hchecked
    obtain ⟨input, hinput, -⟩ := bind_eq_ok_iff.1 hchecked
    exact ⟨input, mapError_eq_ok_iff.1 hinput⟩

/-- What was opened had passed its mode's checks. -/
theorem selects_of_openInput {C : Primitives} {world : World} (hfs : world.fs = state.view) {wal : Bool} {cipher : CipherArgs}
    {passphraseFile : Option Path} {opened : Opened}
    (h : openInput C world wal path cipher passphraseFile = some (.ok opened)) :
    (∃ resolved, SelectsMain state path resolved) ∨ ∃ input, SelectsWal state path input := by
  rcases openInput_eq_ok h with ⟨snapshot, -, hopen, -⟩ | ⟨reader, -, hopen, -⟩
  · right
    obtain ⟨input, hinput⟩ := open_of_openWalSnapshot hopen
    rw [hfs, open_iff_selectsWal] at hinput
    exact ⟨input, hinput⟩
  · left
    obtain ⟨resolved, hresolved⟩ := mainPreflight_of_openReader hopen
    rw [hfs, mainPreflight_iff_selectsMain] at hresolved
    exact ⟨resolved, hresolved⟩

end Companions

/-! ## The input after an export -/

/-- No entry that was there changes in an export. Its input is intact exactly when the run leaves no file or the output
path names no companion of the input. -/
theorem export_preserves_iff (C : Primitives) (world : World) (state : FileSystem) (args : ExportArgs) :
    ∃ result after, exportIn state C world args = some (result, after) ∧
      (∀ location, state.tree.entries location ≠ none → after.tree.entries location = state.tree.entries location) ∧
      (Preserved state after args.inputPath ↔ ¬ (NamesCompanion state args.inputPath args.outputPath ∧
        LeavesFile C (world.on state args.outputPath) args)) := by
  obtain ⟨result, after, hrun, hcases⟩ := exportIn_cases C world state args
  refine ⟨result, after, hrun, ?_⟩
  rcases hcases with ⟨hleaves, rfl⟩ | ⟨hleaves, place, content, hlocate, rfl⟩
  · exact ⟨fun _ _ => rfl, fun _ h => hleaves h.2, fun _ => preserved_refl⟩
  refine ⟨fun location h => FileSystem.create_entries h, ?_, ?_⟩
  · rintro hpreserved ⟨⟨beside, location, hbeside, hplace, hnamed⟩, -⟩
    obtain rfl : location = place.location := Except.ok.inj (hnamed.symm.trans hlocate)
    -- the lookup missed before, and finds the new file
    have hfound := hpreserved.companions beside hbeside
    rw [FileSystem.symlinkMetadata_create_self hplace] at hfound
    have hvacant : state.Vacant beside := by
      unfold FileSystem.Vacant
      rw [hplace]
      exact place.free
    exact Absent.not_ok (FileSystem.vacant_iff.2 hvacant) hfound.symm
  · intro hnot
    obtain ⟨opened, hopen, -⟩ := id hleaves
    have hselects := selects_of_openInput rfl hopen
    apply preserved_create hselects
    intro beside hbeside
    obtain ⟨location, hplace⟩ := hbeside.locate hselects
    apply FileSystem.symlinkMetadata_create hplace
    rintro rfl
    exact hnot ⟨⟨beside, _, hbeside, hplace, hlocate⟩, hleaves⟩

/-! ## The one-page database and an output path beside it -/

/-- The place of `/db`. -/
def samplePlace : emptyRoot.Place where
  location := [[0x64, 0x62]]
  inDirectory := rfl
  named := by
    rintro name hmem
    obtain rfl := List.mem_singleton.1 hmem
    unfold IsName
    decide
  admitted := by
    rintro name hmem
    obtain rfl := List.mem_singleton.1 hmem
    rfl
  free := rfl

/-- The sample database at `/db`, nothing beside it. -/
def sampleState : FileSystem := FileSystem.create samplePlace samplePage

section Sample

variable {state : FileSystem} {outputPath : Path} {location : List Bytes}
  (hmain : mainPreflight state.view samplePath = .ok samplePath)
  (hfile : state.view.openFile samplePath = .ok (FileSource samplePage))
  (hlocate : state.locate outputPath = .ok location) (hfree : state.tree.entries location = none)

include hmain hfile hlocate hfree

/-- A run over the sample database, wherever it is at `/db` and the output path names a free place. -/
theorem undisturbed_on : Undisturbed ((World.of samplePage).on state outputPath) sampleCipher none samplePath sampleConfig
    samplePassphrase samplePage where
  config := sampleCipher_config
  passphrase := rfl
  alone := checkCompanionFiles_eq_ok_iff.2 (mainPreflight_eq_ok_iff.1 hmain).1
  found :=
    have hfound := (mainPreflight_eq_ok_iff.1 hmain).2
    ⟨samplePath, hfound.1, checkCompanionFiles_eq_ok_iff.2 hfound.2, hfile⟩
  fresh := by
    show destinationEntry state outputPath = none
    unfold destinationEntry
    rw [hlocate]
    dsimp only
    rw [hfree]
    rfl
  quiet := by
    refine ⟨?_, fun _ => rfl, rfl, rfl⟩
    show (match (none : Option IoError), state.locate outputPath with
      | some e, _ => some e
      | none, .error e => some e
      | none, .ok _ => none) = none
    rw [hlocate]
  stdout := rfl

/-- Its plaintext is left at that place. -/
theorem exportIn_sample : exportIn state sample (.of samplePage) { sampleExport with outputPath := outputPath } =
    some (.ok (), FileSystem.create (FileSystem.placeOf hlocate hfree) samplePlain) := by
  have hundisturbed := undisturbed_on hmain hfile hlocate hfree
  have hread : readAll sample sampleReader = .ok () := (readAll_eq_ok_iff sample).2 reads_of_sampleReader
  have hrun : exportCommand sample ((World.of samplePage).on state outputPath) { sampleExport with outputPath := outputPath } =
      some (.ok (), some (.file samplePlain)) := by
    refine (exportCommand_quiet sample hundisturbed.quiet hundisturbed.fresh sampleCipher none samplePath outputPath).trans ?_
    rw [hundisturbed.openReader_sample]
    simp only [exportOutcome, hread, SqlCipherReader.plaintextImage_sampleReader]
    rfl
  exact exportIn_of_run hrun (leave_file hlocate hfree samplePlain)

end Sample

/-- `export` of `/db` to `/db-wal`. -/
def sampleBeside : ExportArgs := { sampleExport with outputPath := companion samplePath walSuffix }

/-- The plaintext now passes for the input's WAL, and the input that was read is refused. -/
theorem export_becomes_companion :
    ∃ after, exportIn sampleState sample (.of samplePage) sampleBeside = some (.ok (), after) ∧
      after.tree.entries [[0x64, 0x62, 0x2d, 0x77, 0x61, 0x6c]] = some (.file samplePlain) ∧
      mainPreflight sampleState.view samplePath = .ok samplePath ∧
      (∀ resolved, mainPreflight after.view samplePath ≠ .ok resolved) ∧ ¬ Preserved sampleState after samplePath := by
  have hlocate : sampleState.locate sampleBeside.outputPath = .ok [[0x64, 0x62, 0x2d, 0x77, 0x61, 0x6c]] := rfl
  have hfree : sampleState.tree.entries [[0x64, 0x62, 0x2d, 0x77, 0x61, 0x6c]] = none := rfl
  have hbefore : mainPreflight sampleState.view samplePath = .ok samplePath := rfl
  have hafter : ∀ resolved, mainPreflight (FileSystem.create (FileSystem.placeOf hlocate hfree) samplePlain).view samplePath ≠
      .ok resolved := by
    intro resolved h
    obtain ⟨halone, -, -⟩ := mainPreflight_eq_ok_iff.1 h
    exact halone.wal.not_ok (FileSystem.symlinkMetadata_create_self hlocate)
  refine ⟨_, exportIn_sample hbefore rfl hlocate hfree, ?_, hbefore, hafter, ?_⟩
  · exact FileSystem.create_entries_self
  · intro h
    exact hafter samplePath ((h.main samplePath).2 hbefore)

end Veilite.Cli

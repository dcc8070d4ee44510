/-
The checks before an open, in the command line tool and in the Turso layer: what each of the two modes takes for
its input, and that no input is good for both.
-/
import Veilite.Turso.FileSystem
import Veilite.Cli.Commands

namespace Veilite.Cli

open Buffer Veilite.Core Traverse Turso

/-! ## What the checks look for -/

section View

variable {fs : FsView}

/-- A lookup finds no entry, not even a dangling link. -/
def Absent (fs : FsView) (path : Path) : Prop := ∃ e, fs.symlinkMetadata path = .error e ∧ e.kind = .notFound

/-- A lookup fails in another way: whether there is an entry is not known. -/
def Uninspectable (fs : FsView) (path : Path) : Prop := ∃ e, fs.symlinkMetadata path = .error e ∧ e.kind ≠ .notFound

theorem Absent.not_ok {path : Path} (h : Absent fs path) {metadata : Metadata} : fs.symlinkMetadata path ≠ .ok metadata := by
  obtain ⟨e, he, -⟩ := h
  rw [he]
  rintro ⟨⟩

theorem Uninspectable.not_absent {path : Path} (h : Uninspectable fs path) : ¬ Absent fs path := by
  obtain ⟨e, he, hkind⟩ := h
  rintro ⟨e', he', hkind'⟩
  rw [he] at he'
  cases he'
  exact hkind hkind'

/-- A check of one companion passes on a missing entry alone. -/
theorem check_eq_ok_iff {ε : Type} {lookup : Except IoError Metadata} {present : ε} {other : IoError → ε} :
    (match lookup with
      | .ok _ => .error present
      | .error e => if e.kind = .notFound then .ok () else .error (other e) : Except ε Unit) = .ok () ↔
      ∃ e, lookup = .error e ∧ e.kind = .notFound := by
  rcases lookup with e | metadata
  · by_cases hkind : e.kind = .notFound
    · simp [hkind]
    · simp [hkind]
  · simp

theorem rejectJournal_eq_ok_iff {path : Path} {u : Unit} :
    rejectJournal fs path = .ok u ↔ Absent fs (companion path journalSuffix) :=
  check_eq_ok_iff

theorem companionExists_check {path : Path} {message : Message} :
    (match companionExists fs path with
      | .error e => .error e
      | .ok true => .error ⟨.unsupported, message⟩
      | .ok false => .ok () : Except IoError Unit) = .ok () ↔ Absent fs path := by
  unfold companionExists Absent
  rcases fs.symlinkMetadata path with e | metadata
  · by_cases hkind : e.kind = .notFound
    · simp [hkind]
    · simp [hkind]
  · simp

/-- Neither companion is beside the path. -/
structure Alone (fs : FsView) (path : Path) : Prop where
  wal : Absent fs (companion path walSuffix)
  journal : Absent fs (companion path journalSuffix)

theorem checkCompanions_eq_ok_iff {path : Path} {u : Unit} : checkCompanions fs path = .ok u ↔ Alone fs path := by
  unfold checkCompanions
  rw [List.forM_eq_forM, List.forM_cons, bind_eq_ok_iff]
  constructor
  · rintro ⟨_, hwal, h⟩
    rw [List.forM_cons, bind_eq_ok_iff] at h
    obtain ⟨_, hjournal, -⟩ := h
    exact ⟨check_eq_ok_iff.1 hwal, check_eq_ok_iff.1 hjournal⟩
  · intro h
    refine ⟨(), check_eq_ok_iff.2 h.wal, ?_⟩
    rw [List.forM_cons, bind_eq_ok_iff]
    exact ⟨(), check_eq_ok_iff.2 h.journal, rfl⟩

theorem checkCompanionFiles_eq_ok_iff {path : Path} {u : Unit} : checkCompanionFiles fs path = .ok u ↔ Alone fs path := by
  unfold checkCompanionFiles
  rw [List.forM_eq_forM, List.forM_cons, bind_eq_ok_iff]
  constructor
  · rintro ⟨_, hwal, h⟩
    rw [List.forM_cons, bind_eq_ok_iff] at h
    obtain ⟨_, hjournal, -⟩ := h
    exact ⟨companionExists_check.1 hwal, companionExists_check.1 hjournal⟩
  · intro h
    refine ⟨(), companionExists_check.2 h.wal, ?_⟩
    rw [List.forM_cons, bind_eq_ok_iff]
    exact ⟨(), companionExists_check.2 h.journal, rfl⟩

/-! ## The preflights -/

/-- `open_reader` up to the passphrase: the path it opens. -/
def mainPreflight (fs : FsView) (path : Path) : Except IoError Path := do
  checkCompanionFiles fs path
  let resolved ← (fs.canonicalize path).mapError (pathIoError "failed to resolve encrypted database" path)
  checkCompanionFiles fs resolved
  return resolved

/-- The rest of `open_reader` is about the resolved path. -/
theorem openReader_eq (C : Primitives) (world : World) (path : Path) (cipher : CipherArgs) (passphraseFile : Option Path) :
    openReader C world path cipher passphraseFile = (do
      let config ← cipher.config
      let resolved ← (mainPreflight world.fs path).mapError .io
      let passphrase ← (world.passphrase passphraseFile).mapError .io
      let source ← (openEncryptedDatabase world resolved).mapError .io
      (SqlCipherReader.open C source config passphrase ()).1.mapError .reader) := by
  unfold openReader mainPreflight
  rcases cipher.config with e | config
  · rfl
  rcases checkCompanionFiles world.fs path with e | _
  · rfl
  rcases world.fs.canonicalize path with e | resolved
  · rfl
  rcases hcheck : checkCompanionFiles world.fs resolved with e | _
  · simp [Except.mapError, hcheck, bind, Except.bind]
  · simp [Except.mapError, hcheck, bind, Except.bind, pure, Except.pure]

theorem mainPreflight_eq_ok_iff {path resolved : Path} :
    mainPreflight fs path = .ok resolved ↔ Alone fs path ∧ fs.canonicalize path = .ok resolved ∧ Alone fs resolved := by
  unfold mainPreflight
  constructor
  · intro h
    obtain ⟨_, halone, h⟩ := bind_eq_ok_iff.1 h
    obtain ⟨target, htarget, h⟩ := bind_eq_ok_iff.1 h
    obtain ⟨_, hcanonical, h⟩ := bind_eq_ok_iff.1 h
    cases h
    exact ⟨checkCompanionFiles_eq_ok_iff.1 halone, mapError_eq_ok_iff.1 htarget, checkCompanionFiles_eq_ok_iff.1 hcanonical⟩
  · rintro ⟨halone, htarget, hcanonical⟩
    refine bind_eq_ok_iff.2 ⟨(), checkCompanionFiles_eq_ok_iff.2 halone, ?_⟩
    refine bind_eq_ok_iff.2 ⟨resolved, mapError_eq_ok_iff.2 htarget, ?_⟩
    exact bind_eq_ok_iff.2 ⟨(), checkCompanionFiles_eq_ok_iff.2 hcanonical, rfl⟩

/-- The Turso layer asks for a passphrase too, and for nothing else. -/
theorem resolveMain_eq_ok_iff {path resolved : Path} {passphrase : Bytes} :
    resolveMain fs path passphrase = .ok resolved ↔
      passphrase ≠ [] ∧ Alone fs path ∧ fs.canonicalize path = .ok resolved ∧ Alone fs resolved := by
  unfold resolveMain
  constructor
  · intro h
    obtain ⟨hne, h⟩ := guard_eq_ok_iff.1 h
    obtain ⟨_, halone, h⟩ := bind_eq_ok_iff.1 h
    obtain ⟨target, htarget, h⟩ := bind_eq_ok_iff.1 h
    obtain ⟨_, hcanonical, h⟩ := bind_eq_ok_iff.1 h
    cases h
    exact ⟨hne, checkCompanions_eq_ok_iff.1 halone, mapError_eq_ok_iff.1 htarget, checkCompanions_eq_ok_iff.1 hcanonical⟩
  · rintro ⟨hne, halone, htarget, hcanonical⟩
    refine guard_eq_ok_iff.2 ⟨hne, ?_⟩
    refine bind_eq_ok_iff.2 ⟨(), checkCompanions_eq_ok_iff.2 halone, ?_⟩
    refine bind_eq_ok_iff.2 ⟨resolved, mapError_eq_ok_iff.2 htarget, ?_⟩
    exact bind_eq_ok_iff.2 ⟨(), checkCompanions_eq_ok_iff.2 hcanonical, rfl⟩

/-- All that `WalInput::open` asks of the file system. -/
theorem walInput_open_eq_ok_iff {path : Path} {input : WalInput} :
    WalInput.open fs path = .ok input ↔
      Absent fs (companion path journalSuffix) ∧ fs.canonicalize path = .ok input.path ∧
      Absent fs (companion input.path journalSuffix) ∧
      (∃ metadata, fs.metadata input.path = .ok metadata ∧ metadata.isFile = true) ∧
      (∃ metadata, fs.metadata (companion input.path walSuffix) = .ok metadata ∧ metadata.isFile = true ∧
        metadata.len = input.walSize) ∧
      (Absent fs (companion path walSuffix) ∨ (∃ metadata, fs.symlinkMetadata (companion path walSuffix) = .ok metadata) ∧
        ∃ target, fs.canonicalize (companion path walSuffix) = .ok target ∧
          fs.canonicalize (companion input.path walSuffix) = .ok target) ∧
      toStr input.path ≠ none := by
  unfold WalInput.open
  simp only [bind_eq_ok_iff, guard_eq_ok_iff, mapError_eq_ok_iff, rejectJournal_eq_ok_iff, not_not]
  constructor
  · rintro ⟨_, hjournal, resolved, htarget, _, hcanonical, main, hmain, hmainFile, metadata, hwal, hwalFile, h⟩
    rcases hlookup : fs.symlinkMetadata (companion path walSuffix) with e | own
    · rw [hlookup] at h
      obtain ⟨hkind, h⟩ := guard_eq_ok_iff.1 h
      obtain ⟨hutf8, h⟩ := guard_eq_ok_iff.1 h
      cases h
      exact ⟨hjournal, htarget, hcanonical, ⟨main, hmain, hmainFile⟩, ⟨metadata, hwal, hwalFile, rfl⟩,
        .inl ⟨e, hlookup, not_not.1 hkind⟩, hutf8⟩
    · rw [hlookup] at h
      -- a WAL beside an alias: both have to lead to one file
      obtain ⟨target, halias, h⟩ := bind_eq_ok_iff.1 h
      obtain ⟨target', hown, h⟩ := bind_eq_ok_iff.1 h
      obtain ⟨hsame, h⟩ := guard_eq_ok_iff.1 h
      obtain ⟨hutf8, h⟩ := guard_eq_ok_iff.1 h
      cases h
      obtain rfl := not_not.1 hsame
      exact ⟨hjournal, htarget, hcanonical, ⟨main, hmain, hmainFile⟩, ⟨metadata, hwal, hwalFile, rfl⟩,
        .inr ⟨⟨own, rfl⟩, target, mapError_eq_ok_iff.1 halias, mapError_eq_ok_iff.1 hown⟩, hutf8⟩
  · rintro ⟨hjournal, htarget, hcanonical, ⟨main, hmain, hmainFile⟩, ⟨metadata, hwal, hwalFile, hlen⟩, hsame, hutf8⟩
    refine ⟨(), hjournal, input.path, htarget, (), hcanonical, main, hmain, hmainFile, metadata, hwal, hwalFile, ?_⟩
    rcases hsame with ⟨e, hlookup, hkind⟩ | ⟨⟨own, hlookup⟩, target, halias, hown⟩
    · rw [hlookup]
      refine guard_eq_ok_iff.2 ⟨not_not.2 hkind, ?_⟩
      refine guard_eq_ok_iff.2 ⟨hutf8, ?_⟩
      rw [hlen]
      rfl
    · rw [hlookup]
      refine bind_eq_ok_iff.2 ⟨target, mapError_eq_ok_iff.2 halias, ?_⟩
      refine bind_eq_ok_iff.2 ⟨target, mapError_eq_ok_iff.2 hown, ?_⟩
      refine guard_eq_ok_iff.2 ⟨not_not.2 rfl, ?_⟩
      refine guard_eq_ok_iff.2 ⟨hutf8, ?_⟩
      rw [hlen]
      rfl

end View

/-! ## What they select -/

section State

variable {state : FileSystem} {path : Path}

/-- What the main-only mode takes: a path that leads somewhere, where every lookup beside it and beside its canonical path
answers that nothing is there. -/
structure SelectsMain (state : FileSystem) (path resolved : Path) : Prop where
  leads : ∃ location, state.canonical path = .ok location ∧ resolved = pathOf location
  alone : ∀ suffix ∈ [walSuffix, journalSuffix], state.Vacant (companion path suffix)
  canonicalAlone : ∀ suffix ∈ [walSuffix, journalSuffix], state.Vacant (companion resolved suffix)

/-- What the WAL mode takes: a path that leads to a file whose canonical path is UTF-8, beside either path the answer that
no journal is there, a file beside the canonical path for the WAL, and beside the given one the answer that no WAL is
there or a way to the same file. -/
structure SelectsWal (state : FileSystem) (path : Path) (input : WalInput) : Prop where
  main : ∃ location content, state.canonical path = .ok location ∧
    state.tree.entries location = some (.file content) ∧ input.path = pathOf location
  utf8 : toStr input.path ≠ none
  journal : state.Vacant (companion path journalSuffix)
  canonicalJournal : state.Vacant (companion input.path journalSuffix)
  wal : ∃ location content, state.resolve (companion input.path walSuffix) = .ok location ∧
    state.tree.entries location = some (.file content) ∧ content.length = input.walSize ∧
    (state.Vacant (companion path walSuffix) ∨ state.canonical (companion path walSuffix) = .ok location)

theorem alone_view_iff {path : Path} :
    Alone state.view path ↔ ∀ suffix ∈ [walSuffix, journalSuffix], state.Vacant (companion path suffix) := by
  rw [List.forall_mem_cons, List.forall_mem_singleton, ← FileSystem.vacant_iff, ← FileSystem.vacant_iff]
  exact ⟨fun h => ⟨h.wal, h.journal⟩, fun h => ⟨h.1, h.2⟩⟩

theorem selectsMain_iff {resolved : Path} :
    Alone state.view path ∧ state.view.canonicalize path = .ok resolved ∧ Alone state.view resolved ↔
      SelectsMain state path resolved := by
  rw [alone_view_iff, alone_view_iff, FileSystem.canonicalize_eq_ok_iff]
  exact ⟨fun h => ⟨h.2.1, h.1, h.2.2⟩, fun h => ⟨h.alone, h.leads, h.canonicalAlone⟩⟩

theorem selectsWal_of_open {input : WalInput} (h : WalInput.open state.view path = .ok input) :
    SelectsWal state path input := by
  obtain ⟨hjournal, hcanonical, hown, ⟨metadata, hmain, hfile⟩, hwal, hsame, hutf8⟩ := walInput_open_eq_ok_iff.1 h
  obtain ⟨location, hresolve, hpath⟩ := FileSystem.canonicalize_eq_ok_iff.1 hcanonical
  obtain ⟨location', content, hresolve', hentry, -⟩ := FileSystem.metadata_isFile_iff.1 ⟨metadata, hmain, hfile, rfl⟩
  obtain ⟨wal, walContent, hwalResolve, hwalEntry, hlen⟩ := FileSystem.metadata_isFile_iff.1 hwal
  have hlocation : location' = location := by
    rw [hpath, FileSystem.resolve_pathOf_of_canonical hresolve] at hresolve'
    cases hresolve'
    rfl
  rw [hlocation] at hentry
  refine ⟨⟨location, content, hresolve, hentry, hpath⟩, hutf8, FileSystem.vacant_iff.1 hjournal,
    FileSystem.vacant_iff.1 hown, wal, walContent, hwalResolve, hwalEntry, hlen, ?_⟩
  rcases hsame with habsent | ⟨-, target, halias, hcanonicalWal⟩
  · left
    exact FileSystem.vacant_iff.1 habsent
  · right
    obtain ⟨wal', hwalResolve', htarget⟩ := FileSystem.canonicalize_eq_ok_iff.1 halias
    obtain ⟨wal'', hwalResolve'', htarget'⟩ := FileSystem.canonicalize_eq_ok_iff.1 hcanonicalWal
    have hsame : wal' = wal'' := FileSystem.pathOf_inj hwalResolve' hwalResolve'' (htarget.symm.trans htarget')
    have hown' := FileSystem.resolve_of_canonical hwalResolve''
    rw [hwalResolve', hsame, ← hown', hwalResolve]

theorem open_of_selectsWal {input : WalInput} (h : SelectsWal state path input) :
    WalInput.open state.view path = .ok input := by
  obtain ⟨⟨location, content, hresolve, hentry, hpath⟩, hutf8, hjournal, hown, wal, walContent, hwalResolve, hwalEntry,
    hlen, hsame⟩ := h
  have hcanonical : state.resolve input.path = .ok location := by
    rw [hpath]
    exact FileSystem.resolve_pathOf_of_canonical hresolve
  obtain ⟨metadata, hmain, hfile, -⟩ := FileSystem.metadata_isFile_iff.2 ⟨location, content, hcanonical, hentry, rfl⟩
  apply walInput_open_eq_ok_iff.2
  refine ⟨FileSystem.vacant_iff.2 hjournal, FileSystem.canonicalize_eq_ok_iff.2 ⟨location, hresolve, hpath⟩,
    FileSystem.vacant_iff.2 hown, ⟨metadata, hmain, hfile⟩,
    FileSystem.metadata_isFile_iff.2 ⟨wal, walContent, hwalResolve, hwalEntry, hlen⟩, ?_, hutf8⟩
  rcases hsame with hvacant | halias
  · left
    exact FileSystem.vacant_iff.2 hvacant
  · right
    have hwalCanonical := FileSystem.canonical_eq_ok_iff.2 ⟨hwalResolve, (FileSystem.canonical_eq_ok_iff.1 halias).2⟩
    exact ⟨FileSystem.symlinkMetadata_of_resolve (FileSystem.resolve_of_canonical halias), pathOf wal,
      FileSystem.canonicalize_eq_ok_iff.2 ⟨wal, halias, rfl⟩, FileSystem.canonicalize_eq_ok_iff.2 ⟨wal, hwalCanonical, rfl⟩⟩

theorem open_iff_selectsWal {input : WalInput} : WalInput.open state.view path = .ok input ↔ SelectsWal state path input :=
  ⟨selectsWal_of_open, open_of_selectsWal⟩

theorem mainPreflight_iff_selectsMain {resolved : Path} :
    mainPreflight state.view path = .ok resolved ↔ SelectsMain state path resolved := by
  rw [mainPreflight_eq_ok_iff, selectsMain_iff]

theorem SelectsMain.unique {resolved resolved' : Path} (h : SelectsMain state path resolved)
    (h' : SelectsMain state path resolved') : resolved = resolved' := by
  rw [← mainPreflight_iff_selectsMain] at h h'
  exact Except.ok.inj (h.symm.trans h')

theorem SelectsWal.unique {input input' : WalInput} (h : SelectsWal state path input) (h' : SelectsWal state path input') :
    input = input' := by
  rw [← open_iff_selectsWal] at h h'
  exact Except.ok.inj (h.symm.trans h')

/-- An input with a WAL is no main-only input. -/
theorem SelectsWal.not_selectsMain {input : WalInput} {resolved : Path} (hwal : SelectsWal state path input) :
    ¬ SelectsMain state path resolved := by
  intro hmain
  obtain ⟨location, -, hresolve, -, hpath⟩ := hwal.main
  obtain ⟨location', hresolve', hpath'⟩ := hmain.leads
  obtain ⟨wal, -, hwalResolve, -⟩ := hwal.wal
  rw [hresolve] at hresolve'
  cases hresolve'
  have habsent := FileSystem.vacant_iff.2 (hmain.canonicalAlone walSuffix (List.mem_cons_self ..))
  obtain ⟨own, hown⟩ := FileSystem.symlinkMetadata_of_resolve hwalResolve
  rw [hpath', ← hpath] at habsent
  exact Absent.not_ok habsent hown

/-- A companion over a limit cannot be inspected. -/
theorem uninspectable_of_tooLong {path : Path} (h : state.locate path = .error tooLong) : Uninspectable state.view path := by
  refine ⟨tooLong, ?_, by rintro ⟨⟩⟩
  show state.locate path >>= state.inspect = _
  rw [h]
  rfl

theorem Uninspectable.not_vacant {path : Path} (h : Uninspectable state.view path) : ¬ state.Vacant path :=
  fun hvacant => h.not_absent (FileSystem.vacant_iff.2 hvacant)

theorem Uninspectable.not_resolves {path : Path} {location : List Bytes} (h : Uninspectable state.view path) :
    state.resolve path ≠ .ok location := by
  intro hresolve
  obtain ⟨own, hown⟩ := FileSystem.symlinkMetadata_of_resolve hresolve
  obtain ⟨e, he, -⟩ := h
  rw [hown] at he
  cases he

/-- The companions of the path and of its canonical path. -/
inductive IsCompanion (state : FileSystem) (path : Path) : Path → Prop
  | given {suffix} : suffix ∈ [walSuffix, journalSuffix] → IsCompanion state path (companion path suffix)
  | canonical {resolved suffix} : state.view.canonicalize path = .ok resolved → suffix ∈ [walSuffix, journalSuffix] →
      IsCompanion state path (companion resolved suffix)

theorem SelectsMain.inspectable {resolved beside : Path} (hmain : SelectsMain state path resolved)
    (hbeside : IsCompanion state path beside) : ¬ Uninspectable state.view beside := by
  intro h
  rcases hbeside with hsuffix | ⟨hcanonical, hsuffix⟩
  · exact h.not_vacant (hmain.alone _ hsuffix)
  · obtain rfl := (selectsMain_iff.2 hmain).2.1.symm.trans hcanonical |> Except.ok.inj
    exact h.not_vacant (hmain.canonicalAlone _ hsuffix)

theorem SelectsWal.inspectable {input : WalInput} {beside : Path} (hwal : SelectsWal state path input)
    (hbeside : IsCompanion state path beside) : ¬ Uninspectable state.view beside := by
  intro h
  obtain ⟨location, content, hresolve, hentry, hlen, hsame⟩ := hwal.wal
  rcases hbeside with hsuffix | ⟨hcanonical, hsuffix⟩
  · rcases List.mem_pair.1 hsuffix with rfl | rfl
    · rcases hsame with hvacant | halias
      · exact h.not_vacant hvacant
      · exact h.not_resolves (FileSystem.resolve_of_canonical halias)
    · exact h.not_vacant hwal.journal
  · obtain ⟨main, -, hmain, -, hpath⟩ := hwal.main
    obtain rfl := (FileSystem.canonicalize_eq_ok_iff.2 ⟨main, hmain, hpath⟩).symm.trans hcanonical |> Except.ok.inj
    rcases List.mem_pair.1 hsuffix with rfl | rfl
    · exact h.not_resolves hresolve
    · exact h.not_vacant hwal.canonicalJournal

/-- The two modes select their input exactly and exclude each other, and what cannot be inspected counts as
missing in neither. -/
theorem opening_modes_select (state : FileSystem) (path : Path) :
    (∀ input, WalInput.open state.view path = .ok input ↔ SelectsWal state path input) ∧
    (∀ resolved, mainPreflight state.view path = .ok resolved ↔ SelectsMain state path resolved) ∧
    (∀ resolved passphrase, resolveMain state.view path passphrase = .ok resolved ↔
      passphrase ≠ [] ∧ SelectsMain state path resolved) ∧
    (∀ input resolved, WalInput.open state.view path = .ok input → mainPreflight state.view path ≠ .ok resolved ∧
      ∀ passphrase, resolveMain state.view path passphrase ≠ .ok resolved) ∧
    (∀ beside, IsCompanion state path beside → Uninspectable state.view beside → ∀ input resolved,
      WalInput.open state.view path ≠ .ok input ∧ mainPreflight state.view path ≠ .ok resolved ∧
      ∀ passphrase, resolveMain state.view path passphrase ≠ .ok resolved) := by
  have hturso : ∀ resolved passphrase, resolveMain state.view path passphrase = .ok resolved ↔
      passphrase ≠ [] ∧ SelectsMain state path resolved := by
    intro resolved passphrase
    rw [resolveMain_eq_ok_iff, selectsMain_iff]
  refine ⟨fun input => open_iff_selectsWal, fun resolved => mainPreflight_iff_selectsMain, hturso, ?_, ?_⟩
  · intro input resolved h
    have hno : ¬ SelectsMain state path resolved := (open_iff_selectsWal.1 h).not_selectsMain
    exact ⟨fun h => hno (mainPreflight_iff_selectsMain.1 h), fun passphrase h => hno ((hturso resolved passphrase).1 h).2⟩
  · intro beside hbeside h input resolved
    have hno : ¬ SelectsMain state path resolved := fun hselects => hselects.inspectable hbeside h
    exact ⟨fun hok => (open_iff_selectsWal.1 hok).inspectable hbeside h, fun h => hno (mainPreflight_iff_selectsMain.1 h),
      fun passphrase h => hno ((hturso resolved passphrase).1 h).2⟩

end State

/-! ## A database under a long name -/

/-- There is an entry at the path, a dangling link included. -/
def HasEntry (state : FileSystem) (path : Path) : Prop :=
  ∃ location, state.locate path = .ok location ∧ state.tree.entries location ≠ none

/-- A file system with nothing in it, and the limits of Linux. -/
def emptyRoot : FileSystem where
  tree := {
    entries := fun location => if location = [] then some .directory else none
    admits := fun name => decide (name.length ≤ 255)
    root := rfl
    parent := fun {dir name} h => absurd (if_neg (List.append_ne_nil_of_right_ne_nil dir (List.cons_ne_nil name []))) h
    admitted := fun {dir name} h => absurd (if_neg (List.append_ne_nil_of_right_ne_nil dir (List.cons_ne_nil name []))) h }
  workingDirectory := []
  inode _ := 0
  nameMax := 255
  pathMax := 4095
  working := rfl
  limited _ := rfl
  named {location} h := by
    by_cases hnil : location = []
    · rw [hnil]
      rintro name ⟨⟩
    · exact absurd (if_neg hnil) h
  unreadable {location e} h := by
    change (if location = [] then some FileTree.Node.directory else none) = some (FileTree.Node.unreadable e) at h
    split at h
    · cases h
    · cases h

/-- A name with room for `-wal`, not for `-journal`. -/
@[irreducible] def longName : Bytes := List.replicate 248 0x61

def longPath : Path := pathOf [longName]

theorem length_longName : longName.length = 248 := by
  unfold longName
  exact List.length_replicate

theorem isName_longName {suffix : Bytes} (h : slash ∉ suffix) : IsName (longName ++ suffix) := by
  apply isName_of_length
  · rw [List.length_append, length_longName]
    omega
  · unfold longName
    rw [List.mem_append]
    refine not_or.2 ⟨fun hmem => ?_, h⟩
    cases List.eq_of_mem_replicate hmem

theorem length_pathOf_singleton (name : Bytes) : (pathOf [name]).bytes.length = name.length + 1 := by
  unfold pathOf
  rw [if_neg (List.cons_ne_nil _ []), List.flatMap_singleton, List.length_cons]

section Long

variable {state : FileSystem}

/-- A file in the root is found, its canonical path the one given. -/
theorem canonical_singleton {name content : Bytes} (hpath : name.length < state.pathMax)
    (hentry : state.tree.entries [name] = some (.file content)) : state.canonical (pathOf [name]) = .ok [name] := by
  have hfits : (pathOf [name]).bytes.length ≤ state.pathMax := by
    rw [length_pathOf_singleton]
    exact hpath
  exact FileSystem.canonical_eq_ok_iff.2 ⟨FileSystem.resolve_pathOf (.inr ⟨content, hentry⟩) hfits, hfits⟩

/-- Where a companion of the long path is looked for; the journal is not. -/
theorem locate_beside_longPath (hname : state.nameMax = 255) (hpath : state.pathMax = 4095) {suffix : Bytes}
    (hsuffix : suffix ∈ [walSuffix, journalSuffix]) : state.locate (companion longPath suffix) =
      if suffix.length ≤ 7 then .ok [longName ++ suffix] else .error tooLong := by
  have hsuffixes : ∀ suffix ∈ [walSuffix, journalSuffix], slash ∉ suffix ∧ suffix.length ≤ 8 := by decide
  obtain ⟨hslash, hlen⟩ := hsuffixes suffix hsuffix
  have hfits : (pathOf [longName ++ suffix]).bytes.length ≤ state.pathMax := by
    rw [length_pathOf_singleton, List.length_append, length_longName, hpath]
    omega
  have hroot : state.tree.isDirectory [] = true := state.tree.isDirectory_iff.2 state.tree.root
  have hlocate := FileSystem.locate_pathOf hroot (isName_longName hslash) hfits
  rw [← companion_pathOf, hname, List.length_append, length_longName] at hlocate
  refine hlocate.trans (if_congr ?_ rfl rfl)
  omega

theorem uninspectable_longPath (hname : state.nameMax = 255) (hpath : state.pathMax = 4095) :
    Uninspectable state.view (companion longPath journalSuffix) :=
  uninspectable_of_tooLong (locate_beside_longPath hname hpath (List.mem_cons_of_mem _ (List.mem_cons_self ..)))

theorem not_hasEntry_longPath (hname : state.nameMax = 255) (hpath : state.pathMax = 4095) :
    ¬ HasEntry state (companion longPath journalSuffix) := by
  rintro ⟨location, hlocate, -⟩
  rw [locate_beside_longPath hname hpath (List.mem_cons_of_mem _ (List.mem_cons_self ..))] at hlocate
  cases hlocate

end Long

/-- The sample database under the long name, nothing beside it. -/
def longPlace : emptyRoot.Place where
  location := [longName]
  inDirectory := rfl
  named := by
    rintro name hmem
    obtain rfl := List.mem_singleton.1 hmem
    rw [← List.append_nil longName]
    exact isName_longName List.not_mem_nil
  admitted := by
    rintro name hmem
    obtain rfl := List.mem_singleton.1 hmem
    rw [emptyRoot.limited, length_longName]
    rfl
  free := rfl

def longState : FileSystem := FileSystem.create longPlace samplePage

theorem longState_entry : longState.tree.entries [longName] = some (.file samplePage) := FileSystem.create_entries_self

theorem canonical_longPath : longState.canonical longPath = .ok [longName] := by
  refine canonical_singleton ?_ longState_entry
  rw [length_longName]
  show 248 < 4095
  omega

theorem locate_wal_longPath : longState.locate (companion longPath walSuffix) = .ok [longName ++ walSuffix] :=
  locate_beside_longPath rfl rfl (List.mem_cons_self ..)

theorem free_wal_longPath : longState.tree.entries [longName ++ walSuffix] = none := by
  unfold longState
  rw [FileSystem.create_tree, FileTree.Tree.create_entries_of_ne]
  · rfl
  · intro heq
    have hlen := congrArg List.length (List.cons.inj heq).1
    rw [List.length_append, length_longName] at hlen
    cases hlen

/-- With a file for its WAL. -/
def longWalState : FileSystem := FileSystem.create (FileSystem.placeOf locate_wal_longPath free_wal_longPath) []

/-- A database whose name leaves no room for the suffix of a journal is refused in both modes, though no journal is
there and the rest is as each mode asks. -/
theorem long_name_refused :
    ((∃ location, longState.canonical longPath = .ok location ∧ longPath = pathOf location) ∧
      (∀ beside, IsCompanion longState longPath beside → ¬ HasEntry longState beside) ∧
      (∀ resolved, mainPreflight longState.view longPath ≠ .ok resolved) ∧
      ∀ resolved passphrase, resolveMain longState.view longPath passphrase ≠ .ok resolved) ∧
    ((∃ location content, longWalState.canonical longPath = .ok location ∧
        longWalState.tree.entries location = some (.file content) ∧ longPath = pathOf location) ∧
      toStr longPath ≠ none ∧ ¬ HasEntry longWalState (companion longPath journalSuffix) ∧
      (∃ location content, longWalState.canonical (companion longPath walSuffix) = .ok location ∧
        longWalState.tree.entries location = some (.file content)) ∧
      ∀ input, WalInput.open longWalState.view longPath ≠ .ok input) := by
  have hjournal : journalSuffix ∈ [walSuffix, journalSuffix] := List.mem_cons_of_mem _ (List.mem_cons_self ..)
  have hfree : ∀ suffix ∈ [walSuffix, journalSuffix], ¬ HasEntry longState (companion longPath suffix) := by
    intro suffix hsuffix
    rcases List.mem_pair.1 hsuffix with rfl | rfl
    · rintro ⟨location, hlocate, hentry⟩
      obtain rfl := Except.ok.inj (locate_wal_longPath.symm.trans hlocate)
      exact hentry free_wal_longPath
    · exact not_hasEntry_longPath rfl rfl
  -- the journal cannot be inspected, which counts as missing in no mode
  have hmain : ∀ resolved, ¬ SelectsMain longState longPath resolved := fun resolved hselects =>
    hselects.inspectable (.given hjournal) (uninspectable_longPath rfl rfl)
  refine ⟨⟨⟨_, canonical_longPath, rfl⟩, ?_, fun resolved h => hmain resolved (mainPreflight_iff_selectsMain.1 h),
    fun resolved passphrase h => ?_⟩, ⟨_, samplePage, FileSystem.canonical_create canonical_longPath, ?_, rfl⟩, ?_,
    not_hasEntry_longPath rfl rfl, ⟨[longName ++ walSuffix], [], ?_, FileSystem.create_entries_self⟩, fun input h => ?_⟩
  · rintro beside (hsuffix | ⟨hcanonical, hsuffix⟩)
    · exact hfree _ hsuffix
    · obtain ⟨location, hlocation, rfl⟩ := FileSystem.canonicalize_eq_ok_iff.1 hcanonical
      obtain rfl := Except.ok.inj (canonical_longPath.symm.trans hlocation)
      exact hfree _ hsuffix
  · exact hmain resolved (selectsMain_iff.1 (resolveMain_eq_ok_iff.1 h).2)
  · exact (FileSystem.create_entries (by rw [longState_entry]; exact Option.some_ne_none _)).trans longState_entry
  · unfold toStr longPath pathOf longName
    decide +kernel
  · rw [longPath, show ([longName] : List Bytes) = [] ++ [longName] from rfl, companion_pathOf]
    refine canonical_singleton ?_ FileSystem.create_entries_self
    rw [List.length_append, length_longName]
    show 252 < 4095
    omega
  · exact (open_iff_selectsWal.1 h).inspectable (.given hjournal) (uninspectable_longPath rfl rfl)

end Veilite.Cli
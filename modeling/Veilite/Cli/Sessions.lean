/-
Sessions: commands one after another on one file system, each with faults of its own. Entries only come to be. A
snapshot that was selected stays intact exactly as long as no export leaves its file beside it; and as long as it is
intact, every command finds in it what it held at the start.
-/
import Veilite.Cli.Preservation

namespace Veilite.Cli

open Buffer Veilite.Core Traverse Turso

/-! ## Sessions -/

/-- One command of a session, with what it meets apart from the files. -/
structure Invocation where
  world : World
  stdout : Nat → Option IoError
  command : Command

section Run

variable (C : Primitives)

namespace Invocation

variable (invocation : Invocation) (state : FileSystem)

/-- The world of an export, but for its files. -/
def exportWorld : World := { invocation.world with stdout := invocation.stdout 0 }

/-- `run`, and the file system after it. -/
def runIn : Option (Except CliError Unit × FileSystem) :=
  match invocation.command with
  | .export args => exportIn state C invocation.exportWorld args
  | command => (run C { invocation.world with fs := state.view } invocation.stdout command).map fun result => (result, state)

/-- It is an export that leaves its file there. -/
def LeavesAt (location : List Bytes) : Prop :=
  ∃ args, invocation.command = .export args ∧ LeavesFile C (invocation.exportWorld.on state args.outputPath) args ∧
    state.locate args.outputPath = .ok location

end Invocation

/-- Commands one after another, each in the file system the one before left; what they return, and the last file
system. -/
def session : FileSystem → List Invocation → Option (List (Except CliError Unit) × FileSystem)
  | state, [] => some ([], state)
  | state, invocation :: rest => do
    let (result, after) ← invocation.runIn C state
    let (results, final) ← session after rest
    return (result :: results, final)

/-- The place of a companion of the path. -/
def BesideAt (state : FileSystem) (path : Path) (location : List Bytes) : Prop :=
  ∃ beside, IsCompanion state path beside ∧ state.locate beside = .ok location

/-- Some export of the session leaves its file at the place of a companion. -/
def FillsBeside (path : Path) : FileSystem → List Invocation → Prop
  | _, [] => False
  | state, invocation :: rest => (∃ location, BesideAt state path location ∧ invocation.LeavesAt C state location) ∨
      ∃ result after, invocation.runIn C state = some (result, after) ∧ FillsBeside path after rest

end Run

/-! ## One command -/

section Step

variable (C : Primitives) (invocation : Invocation) (state : FileSystem)

/-- A command returns, and leaves the file system as it was or, when it is an export, with one new file. -/
theorem Invocation.runIn_cases : ∃ result after, invocation.runIn C state = some (result, after) ∧
    ((∀ location, ¬ invocation.LeavesAt C state location) ∧ after = state ∨
      ∃ (place : state.Place) (content : Bytes), invocation.LeavesAt C state place.location ∧
        after = FileSystem.create place content) := by
  obtain ⟨world, stdout, command⟩ := invocation
  cases command with
  | «export» args =>
    obtain ⟨result, after, hrun, hcases⟩ := exportIn_cases C { world with stdout := stdout 0 } state args
    refine ⟨result, after, hrun, ?_⟩
    rcases hcases with ⟨hleaves, hafter⟩ | ⟨hleaves, place, content, hlocate, hafter⟩
    · left
      refine ⟨?_, hafter⟩
      rintro location ⟨args', ⟨⟩, hleaves', -⟩
      exact hleaves hleaves'
    · exact .inr ⟨place, content, ⟨args, rfl, hleaves, hlocate⟩, hafter⟩
  | inspect args => exact ⟨_, state, rfl, .inl ⟨by rintro location ⟨args', ⟨⟩, -⟩, rfl⟩⟩
  | verify args =>
    obtain ⟨result, hresult⟩ : ∃ result, Cli.run C { world with fs := state.view } stdout (.verify args) = some result := by
      obtain ⟨opened, hopen⟩ := openInput_total C { world with fs := state.view, stdout := stdout 0 } args.wal args.inputPath
        args.cipher args.passphraseFile
      have hverify : verify C { world with fs := state.view, stdout := stdout 0 } args = _ := verify_eq_map args
      rw [hopen] at hverify
      exact ⟨_, hverify⟩
    refine ⟨result, state, ?_, .inl ⟨by rintro location ⟨args', ⟨⟩, -⟩, rfl⟩⟩
    change (Cli.run C { world with fs := state.view } stdout (.verify args)).map _ = _
    rw [hresult]
    rfl

/-- A place that holds a file after a command, and did not before, is where the command left it. -/
theorem Invocation.leavesAt_of_new {result : Except CliError Unit} {after : FileSystem} {location : List Bytes}
    (h : invocation.runIn C state = some (result, after)) (hbefore : state.tree.entries location = none)
    (hafter : after.tree.entries location ≠ none) : invocation.LeavesAt C state location := by
  obtain ⟨result', after', hrun, hcases⟩ := invocation.runIn_cases C state
  obtain ⟨rfl, rfl⟩ := Prod.mk.inj (Option.some.inj (hrun.symm.trans h))
  rcases hcases with ⟨-, rfl⟩ | ⟨place, content, hleaves, rfl⟩
  · exact absurd hbefore hafter
  · by_cases hplace : location = place.location
    · rw [hplace]
      exact hleaves
    · rw [FileSystem.create_tree, FileTree.Tree.create_entries_of_ne hplace] at hafter
      exact absurd hbefore hafter

theorem Invocation.grown_runIn {result : Except CliError Unit} {after : FileSystem}
    (h : invocation.runIn C state = some (result, after)) : state.Grown after := by
  obtain ⟨result', after', hrun, hcases⟩ := invocation.runIn_cases C state
  obtain ⟨rfl, rfl⟩ := Prod.mk.inj (Option.some.inj (hrun.symm.trans h))
  rcases hcases with ⟨-, rfl⟩ | ⟨place, content, -, rfl⟩
  · exact .refl
  · exact .create .refl place content

end Step

/-! ## A whole session -/

section Session

variable (C : Primitives)

theorem session_cons {invocation : Invocation} {state mid : FileSystem} {result : Except CliError Unit}
    (h : invocation.runIn C state = some (result, mid)) (rest : List Invocation) :
    session C state (invocation :: rest) = (session C mid rest).map fun ran => (result :: ran.1, ran.2) := by
  rw [session, h]
  cases hrest : session C mid rest <;> simp [hrest]

/-- A session runs to its end, and the file system only grows. -/
theorem session_total (invocations : List Invocation) : ∀ state, ∃ results after,
    session C state invocations = some (results, after) ∧ results.length = invocations.length ∧ state.Grown after := by
  induction invocations with
  | nil => exact fun state => ⟨[], state, rfl, rfl, .refl⟩
  | cons invocation rest ih =>
    intro state
    obtain ⟨result, mid, hrun, -⟩ := invocation.runIn_cases C state
    obtain ⟨results, after, hsession, hlen, hgrown⟩ := ih mid
    refine ⟨result :: results, after, ?_, by rw [List.length_cons, List.length_cons, hlen],
      (invocation.grown_runIn C state hrun).trans hgrown⟩
    rw [session_cons C hrun, hsession]
    rfl

theorem session_append (before rest : List Invocation) : ∀ {state mid : FileSystem} {results : List (Except CliError Unit)},
    session C state before = some (results, mid) → session C state (before ++ rest) =
      (session C mid rest).map fun ran => (results ++ ran.1, ran.2) := by
  induction before with
  | nil =>
    rintro state mid results ⟨⟩
    simp
  | cons invocation before ih =>
    intro state mid results h
    obtain ⟨result, next, hrun, -⟩ := invocation.runIn_cases C state
    obtain ⟨results', mid', hbefore, -⟩ := session_total C before next
    rw [session_cons C hrun, hbefore] at h
    cases h
    rw [List.cons_append, session_cons C hrun, ih hbefore]
    cases session C mid' rest <;> rfl

variable {C} {state after : FileSystem} {path : Path}

/-- A snapshot with a file at the place of a companion that was free is no longer intact. -/
theorem not_preserved_of_filled {location : List Bytes} (hgrown : state.Grown after) (hbeside : BesideAt state path location)
    (hfree : state.tree.entries location = none) {content : Bytes}
    (hfilled : after.tree.entries location = some (.file content)) : ¬ Preserved state after path := by
  intro hpreserved
  obtain ⟨beside, hcompanion, hlocate⟩ := hbeside
  have hfound := hpreserved.companions beside hcompanion
  have hbefore : state.view.symlinkMetadata beside = .error IoError.missing := by
    show state.locate beside >>= state.inspect = _
    rw [hlocate]
    show state.inspect location = _
    unfold FileSystem.inspect
    rw [hfree]
  have hafter : after.view.symlinkMetadata beside = .ok ⟨true, content.length⟩ := by
    show after.locate beside >>= after.inspect = _
    rw [hgrown.locate hlocate]
    show after.inspect location = _
    unfold FileSystem.inspect
    rw [hfilled]
  rw [hbefore, hafter] at hfound
  cases hfound

variable {mid : FileSystem}

theorem Preserved.isCompanion_iff (h : Preserved state mid path) {beside : Path} :
    IsCompanion mid path beside ↔ IsCompanion state path beside := by
  constructor
  · rintro (hsuffix | ⟨hresolved, hsuffix⟩)
    · exact .given hsuffix
    · exact .canonical (h.canonical ▸ hresolved) hsuffix
  · rintro (hsuffix | ⟨hresolved, hsuffix⟩)
    · exact .given hsuffix
    · exact .canonical (h.canonical.trans hresolved) hsuffix

/-- Of a snapshot that is intact at one time, it is the same to be intact from there on or from the start on. -/
theorem Preserved.trans_iff (h : Preserved state mid path) (hgrown : mid.Grown after) :
    Preserved mid after path ↔ Preserved state after path := by
  constructor
  · intro h'
    exact {
      entries := fun location hentry => by
        rw [h'.entries location (by rw [h.entries location hentry]; exact hentry), h.entries location hentry]
      canonical := h'.canonical.trans h.canonical
      companions := fun beside hbeside => by
        rw [h'.companions beside (h.isCompanion_iff.2 hbeside), h.companions beside hbeside]
      main := fun resolved => (h'.main resolved).trans (h.main resolved)
      wal := fun input => (h'.wal input).trans (h.wal input)
      inspect := fun resolved hcanonical suffix hsuffix => by
        rw [h'.inspect resolved (h.canonical.trans hcanonical) suffix hsuffix, h.inspect resolved hcanonical suffix hsuffix] }
  · intro h'
    exact {
      entries := fun location hentry => hgrown.entries hentry
      canonical := h'.canonical.trans h.canonical.symm
      companions := fun beside hbeside => by
        rw [h'.companions beside (h.isCompanion_iff.1 hbeside), h.companions beside (h.isCompanion_iff.1 hbeside)]
      main := fun resolved => (h'.main resolved).trans (h.main resolved).symm
      wal := fun input => (h'.wal input).trans (h.wal input).symm
      inspect := fun resolved hcanonical suffix hsuffix => by
        have hbefore : state.view.canonicalize path = .ok resolved := h.canonical.symm.trans hcanonical
        rw [h'.inspect resolved hbefore suffix hsuffix, h.inspect resolved hbefore suffix hsuffix] }

/-- An intact snapshot is still selected. -/
theorem Preserved.selects (h : Preserved state mid path)
    (hselects : (∃ resolved, SelectsMain state path resolved) ∨ ∃ input, SelectsWal state path input) :
    (∃ resolved, SelectsMain mid path resolved) ∨ ∃ input, SelectsWal mid path input := by
  rcases hselects with ⟨resolved, hmain⟩ | ⟨input, hwal⟩
  · exact .inl ⟨resolved, mainPreflight_iff_selectsMain.1 ((h.main resolved).2 (mainPreflight_iff_selectsMain.2 hmain))⟩
  · exact .inr ⟨input, open_iff_selectsWal.1 ((h.wal input).2 (open_iff_selectsWal.2 hwal))⟩

/-- The snapshot is intact after a session in which no export leaves its file beside it, and after no other. -/
theorem preserved_iff_not_fillsBeside {invocations : List Invocation} {state : FileSystem} {results : List (Except CliError Unit)}
    (hselects : (∃ resolved, SelectsMain state path resolved) ∨ ∃ input, SelectsWal state path input)
    (hsession : session C state invocations = some (results, after)) :
    Preserved state after path ↔ ¬ FillsBeside C path state invocations := by
  induction invocations generalizing state results with
  | nil =>
    cases hsession
    exact ⟨fun _ => id, fun _ => preserved_refl⟩
  | cons invocation rest ih =>
    obtain ⟨result, mid, hrun, hcases⟩ := invocation.runIn_cases C state
    obtain ⟨results', after', hrest, -, hgrown⟩ := session_total C rest mid
    rw [session_cons C hrun, hrest] at hsession
    cases hsession
    have hfills : FillsBeside C path state (invocation :: rest) ↔
        (∃ location, BesideAt state path location ∧ invocation.LeavesAt C state location) ∨ FillsBeside C path mid rest := by
      refine or_congr_right ⟨?_, fun hlater => ⟨result, mid, hrun, hlater⟩⟩
      rintro ⟨result', mid', hrun', hlater⟩
      obtain ⟨rfl, rfl⟩ := Prod.mk.inj (Option.some.inj (hrun.symm.trans hrun'))
      exact hlater
    rw [hfills, not_or]
    rcases hcases with ⟨hleaves, rfl⟩ | ⟨place, content, hleaves, rfl⟩
    · rw [ih hselects hrest]
      exact (and_iff_right (by rintro ⟨location, -, hleft⟩; exact hleaves location hleft)).symm
    by_cases hbeside : BesideAt state path place.location
    · -- the new file is a companion from here on
      have hthere : (FileSystem.create place content).tree.entries place.location ≠ none := by
        rw [FileSystem.create_entries_self]
        exact Option.some_ne_none _
      have hfilled := hgrown.entries hthere
      rw [FileSystem.create_entries_self] at hfilled
      constructor
      · intro hpreserved
        exact absurd hpreserved (not_preserved_of_filled ((FileSystem.Grown.refl.create place content).trans hgrown) hbeside
          place.free hfilled)
      · exact fun h => absurd ⟨_, hbeside, hleaves⟩ h.1
    · have hpreserved : Preserved state (FileSystem.create place content) path := by
        apply preserved_create hselects
        intro beside hcompanion
        obtain ⟨location, hplace⟩ := hcompanion.locate hselects
        apply FileSystem.symlinkMetadata_create hplace
        rintro rfl
        exact hbeside ⟨beside, hcompanion, hplace⟩
      rw [← hpreserved.trans_iff hgrown, ih (hpreserved.selects hselects) hrest]
      refine (and_iff_right ?_).symm
      rintro ⟨location, hcompanion, args, hcommand, -, hlocate⟩
      obtain ⟨args', hcommand', -, hplace⟩ := hleaves
      cases hcommand.symm.trans hcommand'
      cases hlocate.symm.trans hplace
      exact hbeside hcompanion

/-! ## What later commands find -/

theorem snapshot_congr {fs fs' : FsView} {input : WalInput} (hopen : fs'.openFile input.path = fs.openFile input.path)
    (hid : fs'.fileId input.path = fs.fileId input.path) (engine : Engine) (config : CipherConfig) (passphrase : Bytes)
    (registry : Registry) :
    input.snapshot C fs' engine config passphrase registry = input.snapshot C fs engine config passphrase registry := by
  unfold WalInput.snapshot WalInput.connect openConnection openCodec attach
  rw [hopen, hid]

/-- An intact snapshot opens as it did. -/
theorem Preserved.openInput (h : Preserved state after path) (hgrown : state.Grown after) {world : World} {wal : Bool}
    {cipher : CipherArgs} {passphraseFile : Option Path} {opened : Opened}
    (hopen : openInput C { world with fs := state.view } wal path cipher passphraseFile = some (.ok opened)) :
    Cli.openInput C { world with fs := after.view } wal path cipher passphraseFile = some (.ok opened) := by
  unfold Cli.openInput at hopen ⊢
  cases wal with
  | false =>
    rw [if_neg Bool.false_ne_true] at hopen ⊢
    rw [← hopen]
    rcases hreader : openReader C { world with fs := state.view } path cipher passphraseFile with e | reader
    · rw [hreader] at hopen; cases hopen
    rw [openReader_eq] at hreader
    obtain ⟨config, hconfig, hreader⟩ := bind_eq_ok_iff.1 hreader
    obtain ⟨resolved, hresolved, hreader⟩ := bind_eq_ok_iff.1 hreader
    have hmain := mapError_eq_ok_iff.1 hresolved
    obtain ⟨location, hresolve, rfl⟩ := (mainPreflight_iff_selectsMain.1 hmain).leads
    have hfile := hgrown.openFile (FileSystem.resolve_pathOf_of_canonical hresolve)
    -- the same canonical path leads to the same file
    have hsame : openReader C { world with fs := after.view } path cipher passphraseFile = .ok reader := by
      rw [openReader_eq]
      refine bind_eq_ok_iff.2 ⟨config, hconfig, bind_eq_ok_iff.2 ⟨pathOf location, ?_, ?_⟩⟩
      · exact mapError_eq_ok_iff.2 ((h.main _).2 hmain)
      · unfold openEncryptedDatabase at hreader ⊢
        dsimp only at hreader ⊢
        rw [hfile]
        exact hreader
    rw [hsame]
  | true =>
    rw [if_pos rfl] at hopen ⊢
    rw [← hopen]
    unfold openWalSnapshot at hopen ⊢
    split at hopen
    · cases hopen
    rename_i config input passphrase hchecked
    obtain ⟨config', hconfig, hchecked⟩ := bind_eq_ok_iff.1 hchecked
    obtain ⟨input', hinput, hchecked⟩ := bind_eq_ok_iff.1 hchecked
    obtain ⟨passphrase', hpassphrase, hchecked⟩ := bind_eq_ok_iff.1 hchecked
    cases hchecked
    have hwal := mapError_eq_ok_iff.1 hinput
    obtain ⟨location, content, hresolve, -, hpath⟩ := (open_iff_selectsWal.1 hwal).main
    have htarget := FileSystem.resolve_pathOf_of_canonical hresolve
    rw [← hpath] at htarget
    have hwal' := (h.wal _).2 hwal
    dsimp only at hpassphrase ⊢
    rw [hconfig, hwal', hpassphrase]
    simp only [Except.mapError, bind, Except.bind, pure, Except.pure]
    rw [snapshot_congr (hgrown.openFile htarget) (hgrown.fileId htarget)]

/-- So verification gives the same verdict, of sound and of damaged pages. -/
theorem Preserved.verify (h : Preserved state after path) (hgrown : state.Grown after) {world : World} {wal : Bool}
    {cipher : CipherArgs} {passphraseFile : Option Path} {opened : Opened}
    (hopen : Cli.openInput C { world with fs := state.view } wal path cipher passphraseFile = some (.ok opened)) :
    Cli.verify C { world with fs := after.view } ⟨cipher, passphraseFile, wal, path⟩ =
      Cli.verify C { world with fs := state.view } ⟨cipher, passphraseFile, wal, path⟩ := by
  rw [verify_eq_map, verify_eq_map, hopen, h.openInput hgrown hopen]
  rfl

/-- A session runs to its end, and what is there at any time of it is there unchanged at its end. A snapshot that can be
selected at the start is intact at the end exactly when no export has left its file beside it, and then whatever opens it
opens the same pages, and verifies them alike. -/
theorem session_keeps_snapshot
    (hselects : (∃ resolved, SelectsMain state path resolved) ∨ ∃ input, SelectsWal state path input)
    (invocations : List Invocation) :
    ∃ results after, session C state invocations = some (results, after) ∧ results.length = invocations.length ∧
      (∀ before rest, invocations = before ++ rest → ∃ results mid, session C state before = some (results, mid) ∧
        ∀ location, mid.tree.entries location ≠ none → after.tree.entries location = mid.tree.entries location) ∧
      (Preserved state after path ↔ ¬ FillsBeside C path state invocations) ∧
      (¬ FillsBeside C path state invocations → ∀ (world : World) (wal : Bool) (cipher : CipherArgs)
        (passphraseFile : Option Path) (opened : Opened),
        Cli.openInput C { world with fs := state.view } wal path cipher passphraseFile = some (.ok opened) →
          Cli.openInput C { world with fs := after.view } wal path cipher passphraseFile = some (.ok opened) ∧
          Cli.verify C { world with fs := after.view } ⟨cipher, passphraseFile, wal, path⟩ =
            Cli.verify C { world with fs := state.view } ⟨cipher, passphraseFile, wal, path⟩) := by
  obtain ⟨results, after, hsession, hlen, hgrown⟩ := session_total C invocations state
  have hiff := preserved_iff_not_fillsBeside hselects hsession
  refine ⟨results, after, hsession, hlen, ?_, hiff, fun hfills world wal cipher passphraseFile opened hopen => ?_⟩
  · rintro before rest rfl
    obtain ⟨results', mid, hbefore, -⟩ := session_total C before state
    obtain ⟨results'', after', hrest, -, hlater⟩ := session_total C rest mid
    rw [session_append C before rest hbefore, hrest] at hsession
    cases hsession
    exact ⟨results', mid, hbefore, fun location => hlater.entries⟩
  · have hpreserved := hiff.2 hfills
    exact ⟨hpreserved.openInput hgrown hopen, hpreserved.verify hgrown hopen⟩

end Session

/-! ## A session over the one-page database -/

/-- A command that meets no failure. -/
def sampleInvocation (command : Command) : Invocation := ⟨.of samplePage, fun _ => none, command⟩

/-- The place of `/out`. -/
theorem locate_sampleOutput : sampleState.locate sampleOutput = .ok [[0x6f, 0x75, 0x74]] := rfl

/-- The file system once `/db` is exported to `/out`. -/
def exportedState : FileSystem := FileSystem.create (FileSystem.placeOf locate_sampleOutput rfl) samplePlain

theorem runIn_sampleExport : (sampleInvocation (.export sampleExport)).runIn sample sampleState =
    some (.ok (), exportedState) := exportIn_sample rfl rfl locate_sampleOutput rfl

/-- The companions of `/db` are `/db-wal` and `/db-journal`. -/
theorem besideAt_sample {location : List Bytes} (h : BesideAt sampleState samplePath location) :
    location = [[0x64, 0x62, 0x2d, 0x77, 0x61, 0x6c]] ∨
      location = [[0x64, 0x62, 0x2d, 0x6a, 0x6f, 0x75, 0x72, 0x6e, 0x61, 0x6c]] := by
  have hplaces : ∀ suffix ∈ [walSuffix, journalSuffix], ∀ location, sampleState.locate (companion samplePath suffix) = .ok location →
      location = [[0x64, 0x62, 0x2d, 0x77, 0x61, 0x6c]] ∨
        location = [[0x64, 0x62, 0x2d, 0x6a, 0x6f, 0x75, 0x72, 0x6e, 0x61, 0x6c]] := by
    intro suffix hsuffix location hlocate
    rcases List.mem_pair.1 hsuffix with rfl | rfl
    · exact .inl (Except.ok.inj hlocate).symm
    · exact .inr (Except.ok.inj hlocate).symm
  obtain ⟨beside, hbeside | ⟨hcanonical, hsuffix⟩, hlocate⟩ := h
  · exact hplaces _ hbeside _ hlocate
  · obtain rfl : samplePath = _ := Except.ok.inj hcanonical
    exact hplaces _ hsuffix _ hlocate

theorem not_leavesAt_verify {state : FileSystem} {location : List Bytes} :
    ¬ (sampleInvocation (.verify sampleVerify)).LeavesAt sample state location := by
  rintro ⟨args, ⟨⟩, -⟩

/-- An export to `/out` and a verification leave the database intact; an export to `/db-wal` after that does not. -/
theorem session_keeps_snapshot_sample :
    (∃ results after, session sample sampleState
        [sampleInvocation (.export sampleExport), sampleInvocation (.verify sampleVerify)] = some (results, after) ∧
      results.length = 2 ∧ after.tree.entries [[0x6f, 0x75, 0x74]] = some (.file samplePlain) ∧
      Preserved sampleState after samplePath) ∧
    ∃ results after, session sample sampleState
        [sampleInvocation (.export sampleExport), sampleInvocation (.export sampleBeside)] = some (results, after) ∧
      results.length = 2 ∧ ¬ Preserved sampleState after samplePath := by
  have hselects : ∃ resolved, SelectsMain sampleState samplePath resolved := ⟨samplePath, mainPreflight_iff_selectsMain.1 rfl⟩
  constructor
  · obtain ⟨results, after, hsession, hlen, hkept, hpreserved, -⟩ := session_keeps_snapshot (C := sample) (.inl hselects)
      [sampleInvocation (.export sampleExport), sampleInvocation (.verify sampleVerify)]
    obtain ⟨results', mid, hexport, hentries⟩ := hkept [sampleInvocation (.export sampleExport)] _ rfl
    rw [session_cons sample runIn_sampleExport] at hexport
    obtain rfl : exportedState = mid := congrArg Prod.snd (Option.some.inj hexport)
    have hout : exportedState.tree.entries [[0x6f, 0x75, 0x74]] = some (.file samplePlain) := FileSystem.create_entries_self
    refine ⟨results, after, hsession, hlen, ?_, hpreserved.2 ?_⟩
    · rw [hentries _ (by rw [hout]; exact Option.some_ne_none _), hout]
    · rintro (⟨location, hbeside, args, ⟨⟩, -, hlocate⟩ | ⟨result, mid, -, ⟨location, -, hleaves⟩ | ⟨-, -, -, ⟨⟩⟩⟩)
      · obtain rfl : _ = location := Except.ok.inj (locate_sampleOutput.symm.trans hlocate)
        rcases besideAt_sample hbeside with h | h
        · cases h
        · cases h
      · exact not_leavesAt_verify hleaves
  · obtain ⟨results, after, hsession, hlen, -, hpreserved, -⟩ := session_keeps_snapshot (C := sample) (.inl hselects)
      [sampleInvocation (.export sampleExport), sampleInvocation (.export sampleBeside)]
    refine ⟨results, after, hsession, hlen, fun h => hpreserved.1 h ?_⟩
    have hlocate : exportedState.locate sampleBeside.outputPath = .ok [[0x64, 0x62, 0x2d, 0x77, 0x61, 0x6c]] := rfl
    have hfree : exportedState.tree.entries [[0x64, 0x62, 0x2d, 0x77, 0x61, 0x6c]] = none := rfl
    have hrun : (sampleInvocation (.export sampleBeside)).runIn sample exportedState = _ :=
      exportIn_sample rfl rfl hlocate hfree
    have hwal : (FileSystem.create (FileSystem.placeOf hlocate hfree) samplePlain).tree.entries
        [[0x64, 0x62, 0x2d, 0x77, 0x61, 0x6c]] = some (.file samplePlain) := FileSystem.create_entries_self
    have hleaves := Invocation.leavesAt_of_new sample _ exportedState hrun hfree (by rw [hwal]; exact Option.some_ne_none _)
    exact .inr ⟨.ok (), exportedState, runIn_sampleExport, .inl ⟨_, ⟨_, .given List.mem_cons_self, hlocate⟩, hleaves⟩⟩

end Veilite.Cli

/-
The commands as functions of a world that does not change are the commands call by call, in the environment that
answers from that world: the same result, and the same entry at the destination.
-/
import Veilite.Cli.AllOrNothing
import Veilite.Cli.Serving

namespace Veilite.Cli.Stepwise

open Buffer Veilite.Core Turso Interact Traverse

section Refinement

variable (C : Primitives) (world : World) (stdout : Nat → Option IoError)

/-! ## Going through the pages -/

theorem readPageInto_computes {s : Served} {reader : SqlCipherReader (Run Host Served) IoError} {r : SqlCipherReader Unit IoError}
    (h : Twin world stdout s reader r) (pageNo : NonZeroU32) (hle : pageNo.get ≤ r.pageCount) {scratch : Bytes}
    (hlen : scratch.length = r.pageSize) : Computes (readPageInto C reader pageNo scratch) s (r.fetchPage C pageNo ()).1 s := by
  have hps : reader.pageSize = r.pageSize := congrArg PageDecryptor.pageSize h.decryptor
  rw [readPageInto_eq C _ h.source (h.pageCount ▸ hle) (hlen.trans hps.symm), fetchPage_eq C rfl hle]
  have hask := Computes.ask (ε := ReaderError IoError) (serve world stdout) s
    (.readExactAt ((pageNo.get - 1) * reader.pageSize) (List.replicate reader.pageSize 0))
  rw [serve_readExactAt world stdout h.opened] at hask
  refine hask.bind ?_
  rw [h.decryptor, hps]
  exact .lift _

/-- What the environment has of the open destination. -/
structure Served.Filling (s : Served) (file : OutputFile) (lines : Nat) : Prop where
  opened : s.file = file
  entry : s.entry = some (.file file.content)
  printed : s.lines = lines

/-- A write leaves the input and the engine alone. -/
theorem writeAll_computes {ε : Type} (f : IoError → ε) (bytes : Bytes) {s : Served} {file : OutputFile} {lines : Nat}
    (h : s.Filling file lines) : ∃ s', Computes (orThrow f (ask (serve world stdout) (.writeAll bytes))) s
      ((writeAll world.faults bytes file).1.mapError f) s' ∧ s'.Filling (writeAll world.faults bytes file).2 lines ∧
      s'.source = s.source ∧ s'.codec = s.codec := by
  obtain rfl := h.opened
  exact ⟨_, .orThrow f (.ask _ _ _), ⟨rfl, rfl, h.printed⟩, rfl, rfl⟩

section Reader

variable {reader : SqlCipherReader (Run Host Served) IoError} {r : SqlCipherReader Unit IoError}

theorem Twin.of_source {s s' : Served} (h : Twin world stdout s reader r) (hsource : s'.source = s.source) :
    Twin world stdout s' reader r :=
  { h with opened := hsource.trans h.opened }

theorem nonzeroPageNumber_eq_ok {number : Nat} (hpos : 0 < number) (hlt : number < 2 ^ 32) :
    nonzeroPageNumber number = .ok ⟨number, hpos, hlt⟩ := by
  unfold nonzeroPageNumber
  rw [NonZeroU32.new_eq_some hpos hlt]

theorem writeReaderPage_round (path : Path) {number lines : Nat} (hnumber : number ∈ List.range' 1 r.pageCount) (scratch : Bytes)
    (t : Bytes × OutputFile) (s : Served)
    (h : (scratch = t.1 ∧ scratch.length = r.pageSize) ∧ Twin world stdout s reader r ∧ s.Filling t.2 lines) :
    Round (writeReaderPage C (serve world stdout) path reader scratch number) s
      (fun scratch t s => (scratch = t.1 ∧ scratch.length = r.pageSize) ∧ Twin world stdout s reader r ∧ s.Filling t.2 lines)
      (fun t s => s.Filling t.2 lines) (Cli.writeReaderPage world.faults C path r number t) := by
  obtain ⟨⟨rfl, hlen⟩, htwin, hfilling⟩ := h
  obtain ⟨hlow, hhigh⟩ := List.mem_range'_1.1 hnumber
  have hcount := r.pageCount_lt
  have hpos : 0 < number := by omega
  have hlt : number < 2 ^ 32 := by omega
  have hread := (readPageInto_computes C world stdout htwin ⟨number, hpos, hlt⟩ (show number ≤ r.pageCount by omega)
    hlen).mapError CliError.reader
  unfold writeReaderPage Cli.writeReaderPage
  rw [nonzeroPageNumber_eq_ok hpos hlt]
  dsimp only
  rw [r.readPageInto_eq C hlen]
  refine .prepend (.lift _) ?_
  rcases hpage : (r.fetchPage C ⟨number, hpos, hlt⟩ ()).1 with e | page
  · rw [hpage] at hread
    exact .error hread.bind_error hfilling
  rw [hpage] at hread
  refine .prepend hread ?_
  have hlength : page.length = r.pageSize := r.length_fetchPage C hpage
  obtain ⟨s', hwrite, hfilling', hsource, -⟩ := writeAll_computes world stdout
    (fun source => CliError.io (pathIoError "failed to write export" path source)) page hfilling
  simp only [Filled.closed_ok, Option.bind_eq_bind, Option.bind_some]
  rcases hwritten : writeAll world.faults page t.2 with ⟨e | _, file⟩
  · rw [hwritten] at hwrite hfilling'
    exact .error hwrite.bind_error hfilling'
  · rw [hwritten] at hwrite hfilling'
    exact .ok (hwrite.bind (.pure page)) ⟨⟨rfl, hlength⟩, htwin.of_source world stdout hsource, hfilling'⟩

theorem verifyPage_round {s : Served} (htwin : Twin world stdout s reader r) {number : Nat}
    (hnumber : number ∈ List.range' 1 r.pageCount) (scratch t : Bytes) (s' : Served)
    (h : (scratch = t ∧ scratch.length = r.pageSize) ∧ s' = s) :
    Round (verifyPage C reader scratch number) s' (fun scratch t s' => (scratch = t ∧ scratch.length = r.pageSize) ∧ s' = s)
      (fun _ s' => s' = s) (Cli.verifyPage C r number t) := by
  obtain ⟨⟨rfl, hlen⟩, rfl⟩ := h
  obtain ⟨hlow, hhigh⟩ := List.mem_range'_1.1 hnumber
  have hcount := r.pageCount_lt
  have hpos : 0 < number := by omega
  have hlt : number < 2 ^ 32 := by omega
  have hread := (readPageInto_computes C world stdout htwin ⟨number, hpos, hlt⟩ (show number ≤ r.pageCount by omega)
    hlen).mapError CliError.reader
  unfold verifyPage Cli.verifyPage
  rw [nonzeroPageNumber_eq_ok hpos hlt]
  dsimp only
  rw [r.readPageInto_eq C hlen]
  refine .prepend (.lift _) ?_
  rcases hpage : (r.fetchPage C ⟨number, hpos, hlt⟩ ()).1 with e | page
  · rw [hpage] at hread
    exact .error hread rfl
  · rw [hpage] at hread
    exact .ok hread ⟨⟨rfl, r.length_fetchPage C hpage⟩, rfl⟩

end Reader

section Snapshot

variable {shown : WalSnapshot} {snapshot : Turso.WalSnapshot} {τ : Type}
  {callback : NonZeroU32 → Bytes → Program Host Served IoError Unit}
  {visit : NonZeroU32 → Bytes → τ → Option (Except IoError Unit × τ)} {Rel : τ → Served → Prop}

theorem Shown.of_codec {s s' : Served} (h : Shown world s shown snapshot) (hcodec : s'.codec = s.codec) :
    Shown world s' shown snapshot :=
  { h with pager := by rw [hcodec]; exact h.pager }

theorem readPage_computes {s : Served} (h : Shown world s shown snapshot) (number : Nat) :
    Computes (orThrow VisitError.read (ask (serve world stdout) (.readPage number))) s
      ((snapshot.connection.pager number).mapError .read) s := by
  obtain ⟨codec, hcodec, hpager⟩ := h.pager
  have hask := Computes.ask (ε := VisitError) (serve world stdout) s (.readPage number)
  have hserve : serve world stdout (.readPage number) s = (world.engine.readPage codec number, s) := by
    simp only [serve, hcodec]
    rfl
  rw [hserve] at hask
  rw [hpager]
  exact hask.orThrow _

theorem visitPage_round
    (hvisit : ∀ pageNo bytes t s, bytes.length = snapshot.pageSize → Shown world s shown snapshot ∧ Rel t s →
      Round (callback pageNo bytes) s (fun _ t s => Shown world s shown snapshot ∧ Rel t s) Rel (visit pageNo bytes t))
    {number : Nat} (hnumber : number ∈ List.range' 1 snapshot.pageCount) (t : τ) (s : Served)
    (h : Shown world s shown snapshot ∧ Rel t s) :
    Round (visitPage (serve world stdout) shown callback number) s (fun _ t s => Shown world s shown snapshot ∧ Rel t s) Rel
      (snapshot.visitPage visit number t) := by
  obtain ⟨hlow, hhigh⟩ := List.mem_range'_1.1 hnumber
  have hcount := snapshot.pageCount_lt
  have hread := readPage_computes world stdout h.1 number
  unfold visitPage Turso.WalSnapshot.visitPage
  rw [NonZeroU32.new_eq_some (show 0 < number by omega) (by omega), h.1.pageSize]
  dsimp only
  refine .prepend (.lift _) ?_
  rcases hpage : snapshot.connection.pager number with e | bytes
  · rw [hpage] at hread
    exact .error hread.bind_error h.2
  rw [hpage] at hread
  refine .prepend hread ?_
  dsimp only
  by_cases hlen : bytes.length ≠ snapshot.pageSize
  · rw [if_pos hlen]
    exact .error (Computes.refused hlen _).bind_error h.2
  · rw [if_neg hlen]
    exact .prepend (.passed hlen _) ((hvisit _ bytes t s (not_not.1 hlen) h).mapError _)

theorem dropSnapshot_computes {ε : Type} (s : Served) :
    Computes (ε := ε) (dropSnapshot (serve world stdout)) s (.ok ()) s :=
  (Computes.ask (serve world stdout) s .rollback).bind (.pure ())

theorem visitPages_round
    (hvisit : ∀ pageNo bytes t s, bytes.length = snapshot.pageSize → Shown world s shown snapshot ∧ Rel t s →
      Round (callback pageNo bytes) s (fun _ t s => Shown world s shown snapshot ∧ Rel t s) Rel (visit pageNo bytes t))
    {t : τ} {s : Served} (h : Shown world s shown snapshot ∧ Rel t s) :
    Round (visitPages (serve world stdout) shown callback) s (fun _ t s => Rel t s) Rel (snapshot.visitPages visit t) := by
  have hloop : Round ((List.range' 1 snapshot.pageCount).foldlM
      (fun (_ : Unit) number => visitPage (serve world stdout) shown callback number) ()) s
      (fun _ t s => Shown world s shown snapshot ∧ Rel t s) Rel
      (forEach (snapshot.visitPage visit) (List.range' 1 snapshot.pageCount) t) :=
    Round.loop (fun number hnumber _ t s h => visitPage_round world stdout hvisit hnumber t s h) h
  unfold visitPages Turso.WalSnapshot.visitPages
  rw [h.1.pageCount]
  generalize forEach (snapshot.visitPage visit) (List.range' 1 snapshot.pageCount) t = result at hloop
  cases hloop with
  | ok hx h => exact .ok (hx.outcome.bind ((dropSnapshot_computes world stdout _).bind (.lift _))) h.2
  | error hx h => exact .error (hx.outcome.bind ((dropSnapshot_computes world stdout _).bind (.lift _))) h

/-- The callback of the merged image; a page of a configured size has the two bytes it sets. -/
theorem writeSnapshotPage_round (path : Path) {lines : Nat} (pageNo : NonZeroU32) (bytes : Bytes) (file : OutputFile) (s : Served)
    (hlen : bytes.length = snapshot.pageSize) (h : Shown world s shown snapshot ∧ s.Filling file lines) :
    Round (writeSnapshotPage (serve world stdout) path pageNo bytes) s
      (fun _ file s => Shown world s shown snapshot ∧ s.Filling file lines) (fun file s => s.Filling file lines)
      (Cli.writeSnapshotPage world.faults path pageNo bytes file) := by
  obtain ⟨config, hsize⟩ := snapshot.pageSize_eq
  have hps := config.pageSize_ge
  have hpage : (if pageNo.get = 1 then (assign bytes 18 1).bind fun header => assign header 19 1 else some bytes) =
      some (standalonePage pageNo bytes) := by
    unfold standalonePage standalone
    by_cases hone : pageNo.get = 1
    · rw [if_pos hone, if_pos hone, assign_eq_some (by omega), Option.bind_some, assign_eq_some (by rw [List.length_set]; omega)]
    · rw [if_neg hone, if_neg hone]
  obtain ⟨s', hwrite, hfilling, -, hcodec⟩ := writeAll_computes world stdout
    (pathIoError "failed to write export" path) (standalonePage pageNo bytes) h.2
  unfold writeSnapshotPage
  rw [writeSnapshotPage_eq world.faults path (by omega)]
  refine .prepend (.panicking hpage) ?_
  rcases hwritten : writeAll world.faults (standalonePage pageNo bytes) file with ⟨e | _, file'⟩
  · rw [hwritten] at hwrite hfilling
    exact .error hwrite hfilling
  · rw [hwritten] at hwrite hfilling
    exact .ok hwrite ⟨h.1.of_codec world hcodec, hfilling⟩

end Snapshot

/-! ## The destination -/

theorem cleanupFailedExport_computes (path : Path) (error : CliError) (s : Served) :
    Computes (cleanupFailedExport (serve world stdout) path error) s
      (.ok (Cli.cleanupFailedExport world.faults path error s.entry).1)
      { s with entry := (Cli.cleanupFailedExport world.faults path error s.entry).2 } := by
  have hask := Computes.ask (ε := CliError) (serve world stdout) s (.removeFile path)
  unfold cleanupFailedExport Cli.cleanupFailedExport
  refine hask.bind ?_
  simp only [serve]
  rcases removeFile world.faults s.entry with ⟨e | _, entry⟩
  · exact .pure _
  · exact .pure _

/-- A file written by rounds that match is created, filled and cleaned up alike. -/
theorem writePlaintextFile_computes (path : Path) {writePages dropped : Program Host Served CliError Unit}
    {big : OutputFile → Option (Except CliError Unit × OutputFile)} {s : Served} (hdropped : Computes dropped s (.ok ()) s)
    (hwrite : ∀ file s', s'.Filling file s.lines → s'.source = s.source → s'.codec = s.codec →
      Round writePages s' (fun _ file s'' => s''.Filling file s.lines) (fun file s'' => s''.Filling file s.lines) (big file)) :
    ∃ result s', Cli.writePlaintextFile world.faults path big s.entry = some (result, s'.entry) ∧
      Computes (writePlaintextFile (serve world stdout) path writePages dropped) s result s' ∧ s'.lines = s.lines := by
  have hask := Computes.ask (ε := CliError) (serve world stdout) s (.createNew path)
  unfold writePlaintextFile Cli.writePlaintextFile
  simp only [serve] at hask
  rcases hcreate : createNew world.faults s.entry with e | file
  · rw [hcreate] at hask
    exact ⟨_, s, rfl, hask.bind (hdropped.bind (.throw _)), rfl⟩
  rw [hcreate] at hask
  dsimp only at hask ⊢
  have hfilling : Served.Filling { s with file := file, entry := some (.file file.content) } file s.lines := ⟨rfl, rfl, rfl⟩
  have hround := hwrite file _ hfilling rfl rfl
  generalize ({ s with file := file, entry := some (.file file.content) } : Served) = s1 at hask hround
  generalize big file = result at hround
  cases hround with
  | error hx h =>
    rename_i e file s2
    -- the pages failed
    have hclean := cleanupFailedExport_computes world stdout path e s2
    rw [h.entry] at hclean
    exact ⟨_, _, rfl, hask.bind (hx.bind_error.outcome.bind (hclean.bind (.throw _))), h.printed⟩
  | ok hx h =>
    rename_i b file s2
    -- the pages are written, and the sync is left
    have hsync := (Computes.ask (ε := CliError) (serve world stdout) s2 .syncAll).orThrow
      fun source => CliError.io (pathIoError "failed to sync export" path source)
    simp only [serve] at hsync
    simp only [Option.bind_eq_bind, Option.bind_some]
    rcases hfailing : world.faults.sync with _ | source
    · rw [hfailing] at hsync
      exact ⟨_, s2, by rw [h.entry]; rfl, hask.bind ((hx.bind hsync).outcome.bind (.pure _)), h.printed⟩
    · rw [hfailing] at hsync
      have hended : Computes (ε := CliError) (outcome (writePages >>= fun _ =>
          orThrow (fun source => CliError.io (pathIoError "failed to sync export" path source)) (ask (serve world stdout) .syncAll)))
          s1 (.ok (.error (.io (pathIoError "failed to sync export" path source)))) s2 := (Computes.bind hx hsync).outcome
      have hclean := cleanupFailedExport_computes world stdout path
        (.io (pathIoError "failed to sync export" path source)) s2
      rw [h.entry] at hclean
      dsimp only
      exact ⟨_, _, rfl, hask.bind (hended.bind (hclean.bind (.throw _))), h.printed⟩

theorem writeDecryptedDatabase_computes (path : Path) {reader : SqlCipherReader (Run Host Served) IoError}
    {r : SqlCipherReader Unit IoError} {s : Served} (h : Twin world stdout s reader r) :
    ∃ result s', Cli.writeDecryptedDatabase world.faults C path r s.entry = some (result, s'.entry) ∧
      Computes (writeDecryptedDatabase C (serve world stdout) path reader) s result s' ∧ s'.lines = s.lines := by
  refine writePlaintextFile_computes world stdout path (.pure _) fun file s' hfilling hsource _ => ?_
  have hsize : reader.pageSize = r.pageSize := congrArg PageDecryptor.pageSize h.decryptor
  have hloop : Round ((List.range' 1 r.pageCount).foldlM (writeReaderPage C (serve world stdout) path reader)
      (List.replicate r.pageSize 0)) s'
      (fun scratch t s'' => (scratch = t.1 ∧ scratch.length = r.pageSize) ∧ Twin world stdout s'' reader r ∧
        s''.Filling t.2 s.lines) (fun t s'' => s''.Filling t.2 s.lines)
      (forEach (Cli.writeReaderPage world.faults C path r) (List.range' 1 r.pageCount) (List.replicate r.pageSize 0, file)) :=
    Round.loop (fun number hnumber scratch t s h => writeReaderPage_round C world stdout path hnumber scratch t s h)
      ⟨⟨rfl, List.length_replicate⟩, h.of_source world stdout hsource, hfilling⟩
  rw [h.pageCount, hsize]
  generalize forEach (Cli.writeReaderPage world.faults C path r) (List.range' 1 r.pageCount)
    (List.replicate r.pageSize 0, file) = result at hloop
  cases hloop with
  | ok hx h => exact .ok (hx.bind (.pure ())) h.2.2
  | error hx h => exact .error hx.bind_error h

theorem writeWalDatabase_computes (path : Path) {shown : WalSnapshot} {snapshot : Turso.WalSnapshot} {s : Served}
    (h : Shown world s shown snapshot) :
    ∃ result s', Cli.writeWalDatabase world.faults path snapshot s.entry = some (result, s'.entry) ∧
      Computes (writeWalDatabase (serve world stdout) path shown) s result s' ∧ s'.lines = s.lines := by
  refine writePlaintextFile_computes world stdout path (dropSnapshot_computes world stdout s) fun file s' hfilling _ hcodec => ?_
  have hvisit := (visitPages_round world stdout (fun pageNo bytes file s hlen h =>
    writeSnapshotPage_round world stdout path pageNo bytes file s hlen h) ⟨h.of_codec world hcodec, hfilling⟩).mapError CliError.visit
  rw [Option.map_eq_bind] at hvisit
  exact hvisit

/-! ## The commands -/

theorem print_computes (line : Message) (s : Served) :
    ∃ s', Computes (print (serve world stdout) line) s (report { world with stdout := stdout s.lines }) s' ∧
      s'.entry = s.entry ∧ s'.lines = s.lines + 1 := by
  have hask := Computes.ask (ε := CliError) (serve world stdout) s (.print line)
  simp only [serve] at hask
  unfold print report
  rcases hfailing : stdout s.lines with _ | e
  · rw [hfailing] at hask
    exact ⟨_, hask.orThrow _, rfl, rfl⟩
  · rw [hfailing] at hask
    exact ⟨_, hask.orThrow _, rfl, rfl⟩

/-- Standard output has no part in opening. -/
theorem openReader_stdout (broken : Option IoError) (path : Path) (cipher : CipherArgs) (passphraseFile : Option Path) :
    Cli.openReader C { world with stdout := broken } path cipher passphraseFile =
      Cli.openReader C world path cipher passphraseFile := rfl

theorem openWalSnapshot_stdout (broken : Option IoError) (path : Path) (cipher : CipherArgs) (passphraseFile : Option Path) :
    Cli.openWalSnapshot C { world with stdout := broken } path cipher passphraseFile =
      Cli.openWalSnapshot C world path cipher passphraseFile := rfl

/-- The export, which leaves the entry its result says. -/
theorem exportCommand_computes (args : ExportArgs) {s : Served} (hentry : s.entry = world.destination) (hlines : s.lines = 0) :
    ∃ result s', Cli.exportCommand C { world with stdout := stdout 0 } args = some (result, s'.entry) ∧
      Computes (exportCommand C (serve world stdout) args) s result s' := by
  unfold exportCommand Cli.exportCommand
  by_cases hwal : args.wal = true
  · rw [if_pos hwal, if_pos hwal]
    obtain ⟨result, hresult, hopens⟩ := openWalSnapshot_opens C world stdout args.inputPath args.cipher args.passphraseFile s
    rw [openWalSnapshot_stdout, hresult]
    cases hopens with
    | error e h hx => exact ⟨_, _, by rw [h.1, hentry]; rfl, hx.bind_error⟩
    | @ok shown snapshot s1 h hx hshown =>
      obtain ⟨result, s2, hwritten, hwrite, hprinted⟩ := writeWalDatabase_computes world stdout args.outputPath hshown
      rw [h.1, hentry] at hwritten
      simp only [Option.bind_eq_bind, Option.bind_some, hwritten]
      rcases result with e | _
      · exact ⟨_, s2, rfl, hx.bind hwrite.bind_error⟩
      · obtain ⟨s3, hprint, hentry3, -⟩ := print_computes world stdout
          [.text s!"decrypted {shown.pageCount} snapshot pages to ", .display args.outputPath] s2
        rw [hprinted, h.2, hlines] at hprint
        exact ⟨_, s3, by rw [hentry3]; rfl, hx.bind (hwrite.bind hprint)⟩
  · rw [if_neg hwal, if_neg hwal]
    have hopens := openReader_opens C world stdout args.inputPath args.cipher args.passphraseFile s
    rw [openReader_stdout]
    generalize Cli.openReader C world args.inputPath args.cipher args.passphraseFile = opened at hopens
    cases hopens with
    | error e h hx => exact ⟨_, _, by rw [h.1, hentry], hx.bind_error⟩
    | @ok reader r s1 h hx htwin =>
      obtain ⟨result, s2, hwritten, hwrite, hprinted⟩ := writeDecryptedDatabase_computes C world stdout args.outputPath htwin
      rw [h.1, hentry] at hwritten
      simp only [Option.bind_eq_bind, Option.bind_some, hwritten]
      rcases result with e | _
      · exact ⟨_, s2, rfl, hx.bind hwrite.bind_error⟩
      · obtain ⟨s3, hprint, hentry3, -⟩ := print_computes world stdout
          [.text s!"decrypted {reader.pageCount} pages to ", .display args.outputPath] s2
        rw [hprinted, h.2, hlines] at hprint
        exact ⟨_, s3, by rw [hentry3]; rfl, hx.bind (hwrite.bind hprint)⟩

theorem verify_computes (args : VerifyArgs) {s : Served} (hlines : s.lines = 0) :
    ∃ result s', Cli.verify C { world with stdout := stdout 0 } args = some result ∧
      Computes (verify C (serve world stdout) args) s result s' ∧ s'.entry = s.entry := by
  unfold verify Cli.verify
  by_cases hwal : args.wal = true
  · rw [if_pos hwal, if_pos hwal]
    obtain ⟨result, hresult, hopens⟩ := openWalSnapshot_opens C world stdout args.inputPath args.cipher args.passphraseFile s
    rw [openWalSnapshot_stdout, hresult]
    cases hopens with
    | error e h hx => exact ⟨_, _, rfl, hx.bind_error, h.1⟩
    | @ok shown snapshot s1 h hx hshown =>
      have hvisit : Round (visitPages (serve world stdout) shown fun _ _ => return ()) s1 (fun _ _ s2 => s1.SameOutput s2)
          (fun _ s2 => s1.SameOutput s2) (snapshot.visitPages (fun _ _ t => some (.ok (), t)) ()) :=
        visitPages_round world stdout (fun _ _ _ _ _ h => .ok (.pure ()) h) ⟨hshown, rfl, rfl⟩
      simp only [Option.bind_eq_bind, Option.bind_some]
      generalize snapshot.visitPages (fun _ _ t => some (.ok (), t)) () = result at hvisit
      cases hvisit with
      | error hx' h' => exact ⟨_, _, rfl, hx.bind (hx'.mapError _).bind_error, h'.1.trans h.1⟩
      | @ok b t s2 hx' h' =>
        obtain ⟨s3, hprint, hentry, -⟩ := print_computes world stdout [.text s!"verified {shown.pageCount} snapshot pages"] s2
        rw [h'.2, h.2, hlines] at hprint
        exact ⟨_, s3, rfl, hx.bind ((hx'.mapError _).bind hprint), hentry.trans (h'.1.trans h.1)⟩
  · rw [if_neg hwal, if_neg hwal]
    have hopens := openReader_opens C world stdout args.inputPath args.cipher args.passphraseFile s
    rw [openReader_stdout]
    generalize Cli.openReader C world args.inputPath args.cipher args.passphraseFile = opened at hopens
    cases hopens with
    | error e h hx => exact ⟨_, _, rfl, hx.bind_error, h.1⟩
    | @ok reader r s1 h hx htwin =>
      have hsize : reader.pageSize = r.pageSize := congrArg PageDecryptor.pageSize htwin.decryptor
      -- the two loops go round together, over one scratch page
      have hloop : Round ((List.range' 1 r.pageCount).foldlM (verifyPage C reader) (List.replicate r.pageSize 0)) s1
          (fun scratch t s2 => (scratch = t ∧ scratch.length = r.pageSize) ∧ s2 = s1) (fun _ s2 => s2 = s1)
          (forEach (Cli.verifyPage C r) (List.range' 1 r.pageCount) (List.replicate r.pageSize 0)) :=
        Round.loop (fun number hnumber scratch t s h => verifyPage_round C world stdout htwin hnumber scratch t s h)
          ⟨⟨rfl, List.length_replicate⟩, rfl⟩
      dsimp only
      generalize forEach (Cli.verifyPage C r) (List.range' 1 r.pageCount) (List.replicate r.pageSize 0) = result at hloop
      rw [← htwin.pageCount, ← hsize] at hloop
      cases hloop with
      | error hx' h' =>
        obtain rfl := h'
        exact ⟨_, _, rfl, hx.bind hx'.bind_error, h.1⟩
      | @ok scratch t s2 hx' h' =>
        obtain rfl := h'.2
        obtain ⟨s3, hprint, hentry, -⟩ := print_computes world stdout [.text s!"verified {reader.pageCount} pages"] s2
        rw [h.2, hlines] at hprint
        exact ⟨_, s3, rfl, hx.bind (hx'.bind hprint), hentry.trans h.1⟩

theorem presence_computes (path resolved : Path) (suffix : Bytes) (s : Served) :
    Computes (presence (serve world stdout) path resolved suffix) s (Cli.presence world.fs path resolved suffix) s := by
  unfold presence Cli.presence
  refine (companionExists_computes world stdout (companion path suffix) s).seq fun found _ => ?_
  cases found with
  | true => exact .pure _
  | false => exact (companionExists_computes world stdout (companion resolved suffix) s).seq fun found _ => .pure _

/-- The report is written up to the first write that fails. -/
theorem writeLines_append (rest : List (Except IoError Message)) : ∀ (lines : List Message) (n : Nat),
    writeLines stdout n (lines.map .ok ++ rest) =
      writeLines stdout n (lines.map .ok) >>= fun _ => writeLines stdout (n + lines.length) rest
  | [], _ => rfl
  | line :: lines, n => by
    simp only [List.map_cons, List.cons_append, writeLines]
    rcases stdout n with _ | e
    · have ih := writeLines_append rest lines (n + 1)
      rw [Nat.add_assoc, Nat.add_comm 1] at ih
      exact ih
    · rfl

theorem printLines_computes : ∀ (lines : List Message) (s : Served), ∃ s',
    Computes (lines.foldlM (fun (_ : Unit) line => print (serve world stdout) line) ()) s
      ((writeLines stdout s.lines (lines.map .ok)).mapError CliError.io) s' ∧ s'.entry = s.entry ∧
      (writeLines stdout s.lines (lines.map .ok) = .ok () → s'.lines = s.lines + lines.length)
  | [], s => ⟨s, .pure (), rfl, fun _ => rfl⟩
  | line :: rest, s => by
    obtain ⟨s1, hprint, hentry, hlines⟩ := print_computes world stdout line s
    simp only [List.map_cons, List.foldlM_cons, writeLines]
    unfold report at hprint
    dsimp only at hprint
    rcases hfailing : stdout s.lines with _ | e
    · rw [hfailing] at hprint
      obtain ⟨s2, hrest, hentry', hlines'⟩ := printLines_computes rest s1
      rw [hlines] at hrest hlines'
      refine ⟨s2, hprint.bind hrest, hentry'.trans hentry, fun hok => ?_⟩
      rw [hlines' hok, List.length_cons]
      omega
    · rw [hfailing] at hprint
      exact ⟨s1, hprint.bind_error, hentry, by rintro ⟨⟩⟩

/-- The lines of the report: the fixed ones, and the two that look for the companions. -/
theorem inspectLines_eq (args : InspectArgs) (found : Inspection) : inspectLines world.fs args found =
    (inspectReport args found.config found.fileSize).map .ok ++
      [(Cli.presence world.fs args.inputPath found.resolved walSuffix).map fun s => [.text s!"WAL: {s}"],
        (Cli.presence world.fs args.inputPath found.resolved journalSuffix).map fun s => [.text s!"journal: {s}"]] := by
  unfold inspectLines inspectReport
  rcases args.cipher.preset with _ | preset
  · rfl
  · rfl

/-- The line of a companion, and what follows it. -/
theorem presenceLine_computes (path resolved : Path) (suffix : Bytes) (line : String → Message)
    (rest : Program Host Served CliError Unit) (lines : List (Except IoError Message)) (s : Served)
    (hrest : ∀ s1, s1.entry = s.entry → s1.lines = s.lines + 1 →
      ∃ s', Computes rest s1 ((writeLines stdout (s.lines + 1) lines).mapError CliError.io) s' ∧ s'.entry = s.entry) :
    ∃ s', Computes (do
        let found ← mapError .io (presence (serve world stdout) path resolved suffix)
        print (serve world stdout) (line found)
        rest) s
      ((writeLines stdout s.lines ((Cli.presence world.fs path resolved suffix).map line :: lines)).mapError CliError.io) s' ∧
      s'.entry = s.entry := by
  have hlooked := (presence_computes world stdout path resolved suffix s).mapError CliError.io
  rcases hfound : Cli.presence world.fs path resolved suffix with e | found
  · rw [hfound] at hlooked
    exact ⟨s, hlooked.bind_error, rfl⟩
  rw [hfound] at hlooked
  obtain ⟨s1, hprint, hentry, hlines⟩ := print_computes world stdout (line found) s
  unfold report at hprint
  simp only [Except.map, writeLines]
  dsimp only at hprint
  rcases hfailing : stdout s.lines with _ | e
  · rw [hfailing] at hprint
    obtain ⟨s', hrest, hentry'⟩ := hrest s1 hentry hlines
    exact ⟨s', hlooked.bind (hprint.bind hrest), hentry'⟩
  · rw [hfailing] at hprint
    exact ⟨s1, hlooked.bind hprint.bind_error, hentry⟩

/-- The checks of `inspect`, up to its report. -/
def checkInput (args : InspectArgs) : Program Host Served CliError Inspection := do
  let config ← lift args.cipher.config
  let metadata ← orThrow (fun source => .io (pathIoError "failed to inspect encrypted database" args.inputPath source))
    (ask (serve world stdout) (.metadata args.inputPath))
  refuse (¬ metadata.isFile) (.io ⟨.invalidInput, [.text "database path is not a file: ", .display args.inputPath]⟩)
  lift ((validateEncryptedFileSize metadata.len config.pageSize).mapError .io)
  let resolved ← orThrow (fun source => .io (pathIoError "failed to resolve encrypted database" args.inputPath source))
    (ask (serve world stdout) (.canonicalize args.inputPath))
  return ⟨config, metadata.len, resolved⟩

/-- The report. -/
def writeReport (args : InspectArgs) (found : Inspection) : Program Host Served CliError Unit := do
  (inspectReport args found.config found.fileSize).foldlM (fun _ line => print (serve world stdout) line) ()
  let wal ← mapError .io (presence (serve world stdout) args.inputPath found.resolved walSuffix)
  print (serve world stdout) [.text s!"WAL: {wal}"]
  let journal ← mapError .io (presence (serve world stdout) args.inputPath found.resolved journalSuffix)
  print (serve world stdout) [.text s!"journal: {journal}"]

theorem inspect_eq (args : InspectArgs) :
    inspect (serve world stdout) args = checkInput world stdout args >>= writeReport world stdout args := by
  unfold inspect checkInput writeReport
  simp only [bind_assoc, pure_bind]

theorem checkInput_computes (args : InspectArgs) (s : Served) :
    Computes (checkInput world stdout args) s (inspectChecks world.fs args) s := by
  unfold checkInput inspectChecks
  refine Computes.seq (.lift _) fun config _ => ?_
  refine Computes.seq (.orThrow _ (.ask _ _ _)) fun metadata _ => ?_
  refine Computes.guard fun _ => ?_
  refine Computes.seq (.lift _) fun _ _ => ?_
  exact Computes.seq (.orThrow _ (.ask _ _ _)) fun resolved _ => .pure _

theorem writeReport_computes (args : InspectArgs) (found : Inspection) {s : Served} (hlines : s.lines = 0) :
    ∃ s', Computes (writeReport world stdout args found) s
      ((writeLines stdout 0 (inspectLines world.fs args found)).mapError CliError.io) s' ∧ s'.entry = s.entry := by
  obtain ⟨s1, hprinted, hentry, hlines1⟩ := printLines_computes world stdout (inspectReport args found.config found.fileSize) s
  rw [inspectLines_eq, writeLines_append]
  rw [hlines] at hprinted hlines1
  rcases hwritten : writeLines stdout 0 ((inspectReport args found.config found.fileSize).map .ok) with e | _
  · rw [hwritten] at hprinted
    exact ⟨s1, hprinted.bind_error, hentry⟩
  rw [hwritten] at hprinted
  have hlines1 := hlines1 hwritten
  rw [← hlines1]
  obtain ⟨s', hrest, hentry'⟩ := presenceLine_computes world stdout args.inputPath found.resolved walSuffix
    (fun wal => [.text s!"WAL: {wal}"]) _ _ s1 fun s2 hentry2 hlines2 => by
      have hlast := presenceLine_computes world stdout args.inputPath found.resolved journalSuffix
        (fun journal => [.text s!"journal: {journal}"]) (pure ()) [] s2 fun s3 hentry3 _ => ⟨s3, .pure (), hentry3⟩
      rw [hlines2, hentry2] at hlast
      simp only [bind_pure_unit] at hlast
      exact hlast
  exact ⟨s', hprinted.bind hrest, hentry'.trans hentry⟩

theorem inspect_computes (args : InspectArgs) {s : Served} (hlines : s.lines = 0) :
    ∃ s', Computes (inspect (serve world stdout) args) s (Cli.inspect world.fs args stdout) s' ∧ s'.entry = s.entry := by
  have hchecks := checkInput_computes world stdout args s
  rw [inspect_eq]
  unfold Cli.inspect
  generalize inspectChecks world.fs args = found at hchecks
  rcases found with e | found
  · exact ⟨s, hchecks.bind_error, rfl⟩
  · obtain ⟨s', hreport, hentry⟩ := writeReport_computes world stdout args found hlines
    exact ⟨s', hchecks.bind hreport, hentry⟩

end Refinement

/-- In the environment that answers from a world, a command ends as the function of that world says it does, and
leaves at the destination the entry that function gives. -/
theorem run_in_world (C : Primitives) (world : World) (stdout : Nat → Option IoError) (command : Command) :
    ∃ result s' events, run C (serve world stdout) command (.start world, []) = some (result, (s', events)) ∧
      Cli.run C world stdout command = some result ∧
      (∀ args, command = .export args →
        Cli.exportCommand C { world with stdout := stdout 0 } args = some (result, s'.entry)) ∧
      ((∀ args, command ≠ .export args) → s'.entry = world.destination) := by
  cases command with
  | «export» args =>
    obtain ⟨result, s', hresult, hx⟩ := exportCommand_computes C world stdout args (s := .start world) rfl rfl
    obtain ⟨events, hrun⟩ := hx []
    refine ⟨result, s', events, hrun, ?_, ?_, fun h => absurd rfl (h args)⟩
    · simp only [Cli.run, hresult, Option.map_some]
    · rintro _ ⟨rfl⟩
      exact hresult
  | inspect args =>
    obtain ⟨s', hx, hentry⟩ := inspect_computes world stdout args (s := .start world) rfl
    obtain ⟨events, hrun⟩ := hx []
    exact ⟨_, s', events, hrun, rfl, by rintro _ ⟨⟩, fun _ => hentry⟩
  | verify args =>
    obtain ⟨result, s', hresult, hx, hentry⟩ := verify_computes C world stdout args (s := .start world) rfl
    obtain ⟨events, hrun⟩ := hx []
    exact ⟨result, s', events, hrun, hresult, by rintro _ ⟨⟩, fun _ => hentry⟩

end Veilite.Cli.Stepwise

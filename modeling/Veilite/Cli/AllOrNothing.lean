/-
An export is all or nothing on its destination: it leaves the entry as it was or holds the complete image,
wherever it fails; only when the partial file cannot be removed does it stay, and then the error says so.
-/
import Veilite.Cli.Export
import Veilite.Core.Ranges

namespace Veilite.Cli

open Buffer Veilite.Core Traverse Turso

/-! ## One file -/

/-- A leftover is never reported as the plain error. -/
theorem leftoverError_ne (path : Path) (exportError : CliError) (cleanupError : IoError) :
    leftoverError path exportError cleanupError ≠ exportError := by
  intro h
  have hlen := congrArg (fun e : CliError => e.message.length) h
  simp only [leftoverError, CliError.message, List.length_append, List.length_cons, List.length_nil] at hlen
  omega

/-- Cleaning up removes the entry and keeps the error, or cannot and reports that. -/
theorem cleanupFailedExport_cases (faults : Faults) (path : Path) (exportError : CliError) (entry : Option Entry) :
    cleanupFailedExport faults path exportError entry = (exportError, none) ∨
      ∃ cleanupError, faults.remove = some cleanupError ∧ cleanupError.kind ≠ .notFound ∧
        cleanupFailedExport faults path exportError entry = (leftoverError path exportError cleanupError, entry) := by
  unfold cleanupFailedExport removeFile
  rcases hremove : faults.remove with _ | cleanupError
  · exact Or.inl rfl
  by_cases hkind : cleanupError.kind = .notFound
  · left
    simp only [if_pos hkind]
  · right
    refine ⟨cleanupError, rfl, hkind, ?_⟩
    simp only [if_neg hkind]

/-- What `write_plaintext_file` does: nothing, the whole file, or a failure and its cleanup, whose error does
not depend on how removing fails. -/
theorem writePlaintextFile_cases (faults : Faults) (path : Path) (entry : Option Entry)
    {writePages : OutputFile → Option (Except CliError Unit × OutputFile)}
    (htotal : ∀ file, ∃ result file', writePages file = some (result, file')) :
    (∃ e, writePlaintextFile faults path writePages entry = some (.error e, entry)) ∨
      (entry = none ∧ ∃ file, writePages ⟨[], 0⟩ = some (.ok (), file) ∧
        writePlaintextFile faults path writePages entry = some (.ok (), some (.file file.content))) ∨
      entry = none ∧ ∃ e content, ∀ remove, writePlaintextFile { faults with remove } path writePages entry =
        some (.error (cleanupFailedExport { faults with remove } path e (some (.file content))).1,
          (cleanupFailedExport { faults with remove } path e (some (.file content))).2) := by
  unfold writePlaintextFile createNew
  cases hcreate : faults.create with
  | some e => exact Or.inl ⟨_, rfl⟩
  | none =>
    cases entry with
    | some entry => exact Or.inl ⟨_, rfl⟩
    | none =>
      right
      obtain ⟨result, file, hwrite⟩ := htotal ⟨[], 0⟩
      dsimp only
      rw [hwrite]
      rcases result with e | _
      · exact Or.inr ⟨rfl, e, file.content, fun remove => rfl⟩
      cases hsync : faults.sync with
      | some source => exact Or.inr ⟨rfl, _, file.content, fun remove => rfl⟩
      | none => exact Or.inl ⟨rfl, file, rfl, rfl⟩

/-- All or nothing, for a way to write an image under any faults. On success there was no entry and now
there is the image. On an error the entry is as it was; or there was none, removing the partial file
failed, and the error reports the leftover in place of the one the run gives when removing works. -/
def AllOrNothing (write : Faults → Option Entry → Option (Except CliError Unit × Option Entry)) (path : Path)
    (image : Bytes → Prop) : Prop :=
  ∀ (faults : Faults) (prior : Option Entry), ∃ result entry, write faults prior = some (result, entry) ∧
    (result = .ok () → prior = none ∧ ∃ content, entry = some (.file content) ∧ image content) ∧
    ∀ e, result = .error e → entry = prior ∨
      prior = none ∧ ∃ cleanupError exportError, faults.remove = some cleanupError ∧ cleanupError.kind ≠ .notFound ∧
        write { faults with remove := none } prior = some (.error exportError, none) ∧
        e = leftoverError path exportError cleanupError ∧ e ≠ exportError

/-- Writing pages into an exclusively created file is all or nothing, when writing returns and the removal's
outcome has no part in it. -/
theorem allOrNothing_writePlaintextFile {writePages : Faults → OutputFile → Option (Except CliError Unit × OutputFile)}
    {path : Path} {image : Bytes → Prop}
    (htotal : ∀ faults file, ∃ result file', writePages faults file = some (result, file'))
    (hremove : ∀ faults remove, writePages { faults with remove } = writePages faults)
    (himage : ∀ faults file, writePages faults ⟨[], 0⟩ = some (.ok (), file) → image file.content) :
    AllOrNothing (fun faults entry => writePlaintextFile faults path (writePages faults) entry) path image := by
  intro faults prior
  rcases writePlaintextFile_cases faults path prior (htotal faults) with
    ⟨e, he⟩ | ⟨rfl, file, hwrite, hfile⟩ | ⟨rfl, e, content, hfail⟩
  · exact ⟨_, _, he, by rintro ⟨⟩, fun _ _ => Or.inl rfl⟩
  · exact ⟨_, _, hfile, fun _ => ⟨rfl, file.content, rfl, himage faults file hwrite⟩, by rintro e ⟨⟩⟩
  · refine ⟨_, _, hfail faults.remove, by rintro ⟨⟩, fun e' he' => ?_⟩
    rcases cleanupFailedExport_cases faults path e (some (.file content)) with hclean | ⟨cleanupError, hr, hkind, hclean⟩
    · left
      exact congrArg Prod.snd hclean
    · right
      -- the same failure, with the removal working, gives the plain error
      have hplain := hfail none
      rw [← hremove faults none] at hplain
      refine ⟨rfl, cleanupError, e, hr, hkind, hplain, ?_, ?_⟩
      · rw [← Except.error.inj he']
        exact congrArg Prod.fst hclean
      · rw [← Except.error.inj he', show (cleanupFailedExport faults path e (some (.file content))).1 = _ from
          congrArg Prod.fst hclean]
        exact leftoverError_ne path e cleanupError

/-! ## The writers as deliveries -/

theorem writeAll_ok {faults : Faults} {bytes : Bytes} {file : OutputFile} (h : (writeAll faults bytes file).1 = .ok ()) :
    (writeAll faults bytes file).2.content = file.content ++ bytes := by
  unfold writeAll at h ⊢
  cases hwrite : faults.write file.writes with
  | none => rfl
  | some fault => rw [hwrite] at h; cases h

section Writers

variable (faults : Faults) (C : Primitives) (path : Path)

/-- A page of the reader, as the main-only loops see it. -/
def readerPage (reader : SqlCipherReader Unit IoError) (pageNo : NonZeroU32) : Except CliError Bytes :=
  (reader.fetchPage C pageNo ()).1.mapError .reader

theorem readerPage_eq_ok_iff {reader : SqlCipherReader Unit IoError} {pageNo : NonZeroU32} {plain : Bytes} :
    readerPage C reader pageNo = .ok plain ↔ reader.Reads C pageNo plain := by
  unfold readerPage
  rw [reader.reads_iff C]
  cases (reader.fetchPage C pageNo ()).1 <;> simp [Except.mapError]

theorem readerPage_eq_error_iff {reader : SqlCipherReader Unit IoError} {pageNo : NonZeroU32} {e : ReaderError IoError} :
    readerPage C reader pageNo = .error (.reader e) ↔ reader.Fails C pageNo e := by
  unfold readerPage
  rw [reader.fails_iff C]
  cases (reader.fetchPage C pageNo ()).1 <;> simp [Except.mapError]

/-- The sink of the main-only export. -/
def writePage (_ : NonZeroU32) (page : Bytes) (file : OutputFile) : Option (Except CliError Unit × OutputFile) :=
  some ((writeAll faults page file).1.mapError fun source => .io (pathIoError "failed to write export" path source),
    (writeAll faults page file).2)

/-- The main-only loop delivers the reader's pages to the file, whatever the scratch page holds between. -/
theorem writeReaderPages_agree (reader : SqlCipherReader Unit IoError) (scratch : Bytes)
    (hscratch : scratch.length = reader.pageSize) (file : OutputFile) :
    Agree Eq (fun s file => s.1.length = reader.pageSize ∧ s.2 = file)
      (forEach (writeReaderPage faults C path reader) (List.range' 1 reader.pageCount) (scratch, file))
      (forEach (deliver (readerPage C reader) (writePage faults path)) (pageNumbers reader.pageCount) file) := by
  rw [forEach_pageNumbers _ reader.pageCount_lt]
  refine forEach_agree ?_ ⟨hscratch, rfl⟩
  rintro pageNo - ⟨scratch, file⟩ _ ⟨hscratch, rfl⟩
  unfold writeReaderPage nonzeroPageNumber deliver readerPage writePage
  rw [NonZeroU32.new_eq_some pageNo.pos pageNo.lt]
  dsimp only at hscratch ⊢
  rw [reader.readPageInto_eq C hscratch]
  rcases hfetch : (reader.fetchPage C pageNo ()).1 with e | plain
  · exact .error rfl ⟨List.length_replicate, rfl⟩
  have hplain := reader.length_fetchPage C hfetch
  simp only [Filled.closed_ok, Option.bind_eq_bind, Option.bind_some, Except.mapError]
  cases (writeAll faults plain file).1 with
  | error e => exact .error rfl ⟨hplain, rfl⟩
  | ok _ => exact .ok ⟨hplain, rfl⟩

/-- The pages the main-only export writes. -/
theorem writeDecryptedDatabase_eq (reader : SqlCipherReader Unit IoError) (entry : Option Entry) :
    writeDecryptedDatabase faults C path reader entry =
      writePlaintextFile faults path
        (forEach (deliver (readerPage C reader) (writePage faults path)) (pageNumbers reader.pageCount)) entry := by
  have hpages : (fun file => do
      let run ← forEach (writeReaderPage faults C path reader) (List.range' 1 reader.pageCount)
        (List.replicate reader.pageSize 0, file)
      return (run.1, run.2.2)) =
      forEach (deliver (readerPage C reader) (writePage faults path)) (pageNumbers reader.pageCount) := by
    funext file
    have hagree := writeReaderPages_agree faults C path reader (List.replicate reader.pageSize 0) List.length_replicate file
    generalize forEach (writeReaderPage faults C path reader) _ _ = x,
      forEach (deliver (readerPage C reader) (writePage faults path)) _ _ = y at hagree ⊢
    cases hagree with
    | panic => rfl
    | ok h => obtain ⟨-, rfl⟩ := h; rfl
    | error he h => obtain ⟨-, rfl⟩ := h; rw [he]; rfl
  unfold writeDecryptedDatabase
  rw [hpages]

theorem writePage_total (pageNo : NonZeroU32) (page : Bytes) (file : OutputFile) :
    ∃ result file', writePage faults path pageNo page file = some (result, file') :=
  ⟨_, _, rfl⟩

theorem writePage_ok {pageNo : NonZeroU32} {page : Bytes} {file file' : OutputFile}
    (h : writePage faults path pageNo page file = some (.ok (), file')) : file'.content = file.content ++ page := by
  unfold writePage at h
  cases hwrite : (writeAll faults page file).1 with
  | error e => rw [hwrite] at h; cases h
  | ok _ => rw [hwrite] at h; cases h; exact writeAll_ok hwrite

/-- A standalone image requires no WAL: both journal mode bytes of its header are 1. -/
def standalone (image : Bytes) : Bytes := (image.set 18 1).set 19 1

/-- What the merged export writes for a page. -/
def standalonePage (pageNo : NonZeroU32) (page : Bytes) : Bytes := if pageNo.get = 1 then standalone page else page

theorem writeSnapshotPage_eq {pageNo : NonZeroU32} {page : Bytes} (hlen : 20 ≤ page.length) (file : OutputFile) :
    writeSnapshotPage faults path pageNo page file =
      some ((writeAll faults (standalonePage pageNo page) file).1.mapError fun source =>
        pathIoError "failed to write export" path source, (writeAll faults (standalonePage pageNo page) file).2) := by
  unfold writeSnapshotPage standalonePage standalone
  by_cases hone : pageNo.get = 1
  · rw [if_pos hone, if_pos hone, assign_eq_some (by omega)]
    simp only [Option.bind_eq_bind, Option.bind_some, assign_eq_some (show 19 < (page.set 18 1).length by
      rw [List.length_set]; omega)]
    rfl
  · rw [if_neg hone, if_neg hone]
    rfl

end Writers

/-- Patching page 1 is patching the image. -/
theorem flatMap_standalonePage {count : Nat} (hpos : 0 < count) {page : NonZeroU32 → Bytes} (hlen : 20 ≤ (page .min).length) :
    ((pageNumbers count).flatMap fun pageNo => standalonePage pageNo (page pageNo)) =
      standalone ((pageNumbers count).flatMap page) := by
  obtain ⟨n, rfl⟩ := Nat.exists_eq_succ_of_ne_zero (Nat.pos_iff_ne_zero.1 hpos)
  have hcons : pageNumbers (n + 1) = .min :: (List.range' 2 n).filterMap NonZeroU32.new := by
    unfold pageNumbers
    rw [List.range'_succ]
    rfl
  -- only page 1 is patched
  have hrest : ((List.range' 2 n).filterMap NonZeroU32.new).flatMap (fun pageNo => standalonePage pageNo (page pageNo)) =
      ((List.range' 2 n).filterMap NonZeroU32.new).flatMap page := by
    apply List.flatMap_congr
    intro pageNo hmem
    obtain ⟨m, hm, hnew⟩ := List.mem_filterMap.1 hmem
    have hne : pageNo.get ≠ 1 := by
      have := (List.mem_range'_1.1 hm).1
      unfold NonZeroU32.new at hnew
      split at hnew
      · cases hnew; simp only; omega
      · cases hnew
    exact if_neg hne
  rw [hcons, List.flatMap_cons, List.flatMap_cons, hrest]
  unfold standalonePage standalone
  rw [if_pos (show NonZeroU32.min.get = 1 from rfl), List.set_append_left _ _ (by omega), List.set_append_left _ _ (by rw [List.length_set]; omega)]

/-! ## Both exports -/

/-- The snapshot's pages are of a configured size. -/
theorem selectedPage_ge {snapshot : WalSnapshot} {pageNo : NonZeroU32} {bytes : Bytes}
    (h : snapshot.selectedPage pageNo = .ok bytes) : 20 ≤ bytes.length := by
  obtain ⟨config, hconfig⟩ := snapshot.pageSize_eq
  have := config.pageSize_ge
  rw [snapshot.selectedPage_length h]
  omega

/-- The main-only export writes the reader's plaintext image, every page of it read. -/
theorem writeDecryptedDatabase_allOrNothing (C : Primitives) (path : Path) (reader : SqlCipherReader Unit IoError) :
    AllOrNothing (fun faults entry => writeDecryptedDatabase faults C path reader entry) path fun content =>
      (∀ pageNo : NonZeroU32, pageNo.get ≤ reader.pageCount → ∃ plain, reader.Reads C pageNo plain) ∧
        content = reader.plaintextImage C := by
  simp only [writeDecryptedDatabase_eq]
  refine allOrNothing_writePlaintextFile (fun faults file => ?_) (fun faults remove => rfl) (fun faults file h => ?_)
  · exact forEach_deliver_total (fun pageNo page file _ => writePage_total faults path pageNo page file) _ file
  · have hsink : ∀ (pageNo : NonZeroU32) (page : Bytes) (file file' : OutputFile), readerPage C reader pageNo = .ok page →
        writePage faults path pageNo page file = some (.ok (), file') →
        file'.content = file.content ++ reader.pageBuffer C pageNo := by
      intro pageNo page file file' hpage hwrite
      rw [writePage_ok faults path hwrite, reader.pageBuffer_of_reads C ((readerPage_eq_ok_iff C).1 hpage)]
    obtain ⟨hread, hcontent⟩ := forEach_deliver_append OutputFile.content (reader.pageBuffer C) hsink h
    refine ⟨fun pageNo hle => ?_, hcontent⟩
    obtain ⟨plain, hplain⟩ := hread pageNo (mem_pageNumbers.2 hle)
    exact ⟨plain, (readerPage_eq_ok_iff C).1 hplain⟩

/-- The merged export writes the selected image as a standalone image, every page of it read. -/
theorem writeWalDatabase_allOrNothing (path : Path) (snapshot : WalSnapshot) :
    AllOrNothing (fun faults entry => writeWalDatabase faults path snapshot entry) path fun content =>
      (∀ pageNo : NonZeroU32, pageNo.get ≤ snapshot.pageCount → ∃ bytes, snapshot.selectedPage pageNo = .ok bytes) ∧
        content = standalone snapshot.image := by
  refine allOrNothing_writePlaintextFile (fun faults file => ?_) (fun faults remove => rfl) (fun faults file h => ?_)
  · -- a page that was read can be patched, so writing never panics
    have hsink : ∀ (pageNo : NonZeroU32) (page : Bytes) (file : OutputFile), snapshot.selectedPage pageNo = .ok page →
        ∃ result file', ((writeSnapshotPage faults path pageNo page file).map fun visited =>
          (visited.1.mapError VisitError.callback, visited.2)) = some (result, file') := by
      intro pageNo page file hpage
      rw [writeSnapshotPage_eq faults path (selectedPage_ge hpage)]
      exact ⟨_, _, rfl⟩
    obtain ⟨result, file', hrun⟩ := forEach_deliver_total hsink (pageNumbers snapshot.pageCount) file
    rw [snapshot.visitPages_eq, hrun]
    exact ⟨_, _, rfl⟩
  · have hsink : ∀ (pageNo : NonZeroU32) (page : Bytes) (file file' : OutputFile), snapshot.selectedPage pageNo = .ok page →
        ((writeSnapshotPage faults path pageNo page file).map fun visited =>
          (visited.1.mapError VisitError.callback, visited.2)) = some (.ok (), file') →
        file'.content = file.content ++ standalonePage pageNo (snapshot.pageBytes pageNo) := by
      intro pageNo page file file' hpage hwrite
      rw [writeSnapshotPage_eq faults path (selectedPage_ge hpage)] at hwrite
      rcases hresult : (writeAll faults (standalonePage pageNo page) file).1 with e | _
      · rw [hresult] at hwrite; cases hwrite
      rw [hresult] at hwrite
      cases hwrite
      rw [writeAll_ok hresult, snapshot.pageBytes_of_selectedPage hpage]
    rw [snapshot.visitPages_eq] at h
    rcases hrun : forEach (deliver snapshot.selectedPage fun pageNo bytes file =>
        (writeSnapshotPage faults path pageNo bytes file).map fun visited =>
          (visited.1.mapError VisitError.callback, visited.2)) (pageNumbers snapshot.pageCount) ⟨[], 0⟩ with _ | ⟨e | _, file'⟩
    · rw [hrun] at h; cases h
    · rw [hrun] at h; cases h
    · rw [hrun] at h
      cases h
      obtain ⟨hread, hcontent⟩ := forEach_deliver_append OutputFile.content
        (fun pageNo => standalonePage pageNo (snapshot.pageBytes pageNo)) hsink hrun
      have hread' : ∀ pageNo : NonZeroU32, pageNo.get ≤ snapshot.pageCount →
          ∃ bytes, snapshot.selectedPage pageNo = .ok bytes := fun pageNo hle => hread pageNo (mem_pageNumbers.2 hle)
      obtain ⟨first, hfirst⟩ := hread' .min snapshot.pageCount_pos
      -- the two bytes lie inside page 1
      have hlen : 20 ≤ (snapshot.pageBytes .min).length := by
        rw [snapshot.pageBytes_of_selectedPage hfirst]
        exact selectedPage_ge hfirst
      exact ⟨hread', hcontent.trans (flatMap_standalonePage snapshot.pageCount_pos hlen)⟩

/-- Both exports are all or nothing on their destination. -/
theorem export_all_or_nothing (C : Primitives) (path : Path) :
    (∀ reader : SqlCipherReader Unit IoError,
      AllOrNothing (fun faults entry => writeDecryptedDatabase faults C path reader entry) path fun content =>
        (∀ pageNo : NonZeroU32, pageNo.get ≤ reader.pageCount → ∃ plain, reader.Reads C pageNo plain) ∧
          content = reader.plaintextImage C) ∧
    ∀ snapshot : WalSnapshot,
      AllOrNothing (fun faults entry => writeWalDatabase faults path snapshot entry) path fun content =>
        (∀ pageNo : NonZeroU32, pageNo.get ≤ snapshot.pageCount → ∃ bytes, snapshot.selectedPage pageNo = .ok bytes) ∧
          content = standalone snapshot.image :=
  ⟨writeDecryptedDatabase_allOrNothing C path, writeWalDatabase_allOrNothing path⟩

end Veilite.Cli

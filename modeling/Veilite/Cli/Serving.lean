/-
The environment that answers every call from a world that does not change, and what opening the input comes to in
it: what the functions of that world give.
-/
import Veilite.Core.Simulation
import Veilite.Cli.Compliance

namespace Veilite.Cli.Stepwise

open Buffer Veilite.Core Turso Interact Traverse

/-! ## The environment of a world -/

/-- What the environment remembers: the opened input, the codec the engine was given, the open destination and the
entry at its path, and how many lines were written. -/
structure Served where
  source : Option (ReadAt Unit IoError)
  codec : Option SqlCipherCodec
  file : OutputFile
  entry : Option Entry
  lines : Nat

/-- Before the first call. -/
def Served.start (world : World) : Served := ⟨none, none, ⟨[], 0⟩, world.destination, 0⟩

def failing {ε : Type} : Option ε → Except ε Unit
  | none => .ok ()
  | some e => .error e

/-- Every call is answered from the world; the file and the engine have to be opened before they are read. -/
def serve (world : World) (stdout : Nat → Option IoError) : Environment Host Served
  | .symlinkMetadata path, s => (world.fs.symlinkMetadata path, s)
  | .metadata path, s => (world.fs.metadata path, s)
  | .canonicalize path, s => (world.fs.canonicalize path, s)
  | .readPassphrase file, s => (world.passphrase file, s)
  | .openFile path, s => ((world.fs.openFile path).map fun _ => (),
      { s with source := (world.fs.openFile path).toOption.or s.source })
  | .fileLen, s => match s.source with
    | none => (.error (.new (.other 0) "not open"), s)
    | some source => ((source.len ()).1, s)
  | .readExactAt offset output, s => match s.source with
    | none => (⟨⟨.error (.new (.other 0) "not open"), output⟩, rfl⟩, s)
    | some source => (⟨(source.readExactAt offset output ()).1, source.length_readExactAt offset output ()⟩, s)
  | .platformIo, s => (failing world.engine.platformIo, s)
  | .openDatabase _ codec, s => (failing world.engine.openDatabase, { s with codec := some codec })
  | .connect _, s => (failing world.engine.connect, s)
  | .beginRead, s => (failing world.engine.beginRead, s)
  | .pageCount, s => (world.engine.pageCount, s)
  | .readPage number, s => match s.codec with
    | none => (.error (.other 0), s)
    | some codec => (world.engine.readPage codec number, s)
  | .rollback, s => ((), s)
  | .createNew _, s => match createNew world.faults s.entry with
    | .error e => (.error e, s)
    | .ok file => (.ok (), { s with file := file, entry := some (.file file.content) })
  | .writeAll bytes, s =>
    let written := writeAll world.faults bytes s.file
    (written.1, { s with file := written.2, entry := some (.file written.2.content) })
  | .syncAll, s => (failing world.faults.sync, s)
  | .removeFile _, s =>
    let removed := removeFile world.faults s.entry
    (removed.1, { s with entry := removed.2 })
  | .print _, s => (failing (stdout s.lines), { s with lines := s.lines + 1 })

/-- The destination is as it was, and nothing was written out. -/
def Served.SameOutput (s s' : Served) : Prop := s'.entry = s.entry ∧ s'.lines = s.lines

theorem Served.SameOutput.trans {s s' s'' : Served} (h : s.SameOutput s') (h' : s'.SameOutput s'') : s.SameOutput s'' :=
  ⟨h'.1.trans h.1, h'.2.trans h.2⟩

/-- Before there is anything to put out, the program ends as the result says: with its error, or with a value that
stands for its value. -/
inductive Opens {ε α β : Type} (x : Program Host Served ε α) (s : Served) (R : Served → α → β → Prop) : Except ε β → Prop
  | error (e : ε) {s' : Served} (h : s.SameOutput s') (hx : Computes x s (.error e) s') : Opens x s R (.error e)
  | ok {a : α} {b : β} {s' : Served} (h : s.SameOutput s') (hx : Computes x s (.ok a) s') (hR : R s' a b) : Opens x s R (.ok b)

namespace Opens

variable {ε ε' α β γ δ : Type} {x : Program Host Served ε α} {s : Served} {R : Served → α → β → Prop} {result : Except ε β}

/-- What comes before a rest that ends so. -/
theorem prepend {f : γ → Program Host Served ε α} {y : Program Host Served ε γ} {c : γ} {s' : Served} (h : s.SameOutput s')
    (hy : Computes y s (.ok c) s') (hrest : Opens (f c) s' R result) : Opens (y >>= f) s R result := by
  cases hrest with
  | error e h' hx => exact .error e (h.trans h') (hy.bind hx)
  | ok h' hx hR => exact .ok (h.trans h') (hy.bind hx) hR

theorem exists_prepend {P : Except ε β → Prop} {f : γ → Program Host Served ε α} {y : Program Host Served ε γ} {c : γ}
    {s' : Served} (h : s.SameOutput s') (hy : Computes y s (.ok c) s') (hrest : ∃ result, P result ∧ Opens (f c) s' R result) :
    ∃ result, P result ∧ Opens (y >>= f) s R result := by
  obtain ⟨result, hresult, hrest⟩ := hrest
  exact ⟨result, hresult, hrest.prepend h hy⟩

theorem bind {f : α → Program Host Served ε γ} {g : β → Except ε δ} {R' : Served → γ → δ → Prop} (hx : Opens x s R result)
    (hf : ∀ s' a b, R s' a b → Opens (f a) s' R' (g b)) : Opens (x >>= f) s R' (result >>= g) := by
  cases hx with
  | error e h hx => exact .error e h hx.bind_error
  | ok h hx hR => exact .prepend h hx (hf _ _ _ hR)

theorem mapError (f : ε → ε') (hx : Opens x s R result) : Opens (Interact.mapError f x) s R (result.mapError f) := by
  cases hx with
  | error e h hx => exact .error _ h (hx.mapError f)
  | ok h hx hR => exact .ok h (hx.mapError f) hR

end Opens

/-- A part that leaves the state as it is, and the rest. -/
theorem Opens.after {ε α γ δ : Type} {x : Program Host Served ε α} {s : Served} {result : Except ε α}
    {f : α → Program Host Served ε γ} {g : α → Except ε δ} {R : Served → γ → δ → Prop} (hx : Computes x s result s)
    (hf : ∀ a, result = .ok a → Opens (f a) s R (g a)) : Opens (x >>= f) s R (result >>= g) := by
  rcases result with e | a
  · exact .error e ⟨rfl, rfl⟩ hx.bind_error
  · exact .prepend ⟨rfl, rfl⟩ hx (hf a rfl)

section Opening

variable (C : Primitives) (world : World) (stdout : Nat → Option IoError)

/-! ## Looking -/

theorem companionExists_computes (path : Path) (s : Served) :
    Computes (companionExists (serve world stdout) path) s (Cli.companionExists world.fs path) s := by
  have hask : Computes (ε := IoError) (ask (serve world stdout) (.symlinkMetadata path)) s
      (.ok (world.fs.symlinkMetadata path)) s := .ask _ _ _
  unfold companionExists Cli.companionExists
  refine hask.bind ?_
  rcases world.fs.symlinkMetadata path with e | metadata
  · dsimp only
    split
    · exact .pure false
    · exact .throw _
  · exact .pure true

/-- One round of `check_companion_files`, by what was found. -/
theorem checkCompanionFile_computes {path : Path} {suffix : Bytes} (kind : String) {found : Except IoError Bool}
    (hfound : Cli.companionExists world.fs (companion path suffix) = found) (s : Served) :
    (∀ e, found = .error e → Computes (checkCompanionFile (serve world stdout) path suffix kind) s (.error e) s) ∧
    (found = .ok true → Computes (checkCompanionFile (serve world stdout) path suffix kind) s
      (.error ⟨.unsupported, [.text s!"SQLCipher {kind} companion file is unsupported: ", .debug (companion path suffix)]⟩) s) ∧
    (found = .ok false → Computes (checkCompanionFile (serve world stdout) path suffix kind) s (.ok ()) s) := by
  have hexists := companionExists_computes world stdout (companion path suffix) s
  rw [hfound] at hexists
  unfold checkCompanionFile
  refine ⟨?_, ?_, ?_⟩
  · rintro e rfl
    exact hexists.bind_error
  · rintro rfl
    exact hexists.bind (.refused rfl _)
  · rintro rfl
    exact hexists.bind (.passed (by simp) _)

theorem checkCompanionFiles_computes (path : Path) (s : Served) :
    Computes (checkCompanionFiles (serve world stdout) path) s (Cli.checkCompanionFiles world.fs path) s := by
  unfold checkCompanionFiles Cli.checkCompanionFiles
  simp only [List.forM_eq_forM, List.forM_cons, List.forM_nil]
  rcases hwal : Cli.companionExists world.fs (companion path walSuffix) with e | _ | _
  · exact ((checkCompanionFile_computes world stdout "WAL" hwal s).1 e rfl).bind_error
  · refine ((checkCompanionFile_computes world stdout "WAL" hwal s).2.2 rfl).bind ?_
    rcases hjournal : Cli.companionExists world.fs (companion path journalSuffix) with e | _ | _
    · exact (checkCompanionFile_computes world stdout "rollback journal" hjournal s).1 e rfl
    · exact (checkCompanionFile_computes world stdout "rollback journal" hjournal s).2.2 rfl
    · exact (checkCompanionFile_computes world stdout "rollback journal" hjournal s).2.1 rfl
  · exact ((checkCompanionFile_computes world stdout "WAL" hwal s).2.1 rfl).bind_error

/-! ## Opening the main file -/

theorem serve_fileLen {s : Served} {source : ReadAt Unit IoError} (hopen : s.source = some source) :
    serve world stdout .fileLen s = ((source.len ()).1, s) := by
  simp only [serve, hopen]
  rfl

theorem serve_readExactAt {s : Served} {source : ReadAt Unit IoError} (hopen : s.source = some source) (offset : Nat)
    (output : Bytes) : serve world stdout (.readExactAt offset output) s =
      (⟨(source.readExactAt offset output ()).1, source.length_readExactAt offset output ()⟩, s) := by
  simp only [serve, hopen]

/-- While a file is open, the input answers as its source does. -/
theorem fileSource_alike {s : Served} {source : ReadAt Unit IoError} (hopen : s.source = some source)
    (before : List (Event Host)) :
    (fileSource (serve world stdout)).Alike ((source.len ()).1) source
      fun run _ => run.1 = s ∧ ∃ events, run.2 = before ++ events where
  len := by
    rintro ⟨s', log⟩ t ⟨hs, events, hevents⟩
    obtain rfl : s' = s := hs
    obtain rfl : log = before ++ events := hevents
    simp [fileSource, perform, serve_fileLen world stdout hopen]
  read := by
    rintro n offset output ⟨s', log⟩ t ⟨hs, events, hevents⟩ - - -
    obtain rfl : s' = s := hs
    obtain rfl : log = before ++ events := hevents
    simp [fileSource, perform, serve_readExactAt world stdout hopen]

/-- The readers of the two models are of one database. -/
structure Twin (s : Served) (reader : SqlCipherReader (Run Host Served) IoError) (r : SqlCipherReader Unit IoError) : Prop where
  source : reader.source = fileSource (serve world stdout)
  opened : s.source = some r.source
  decryptor : reader.decryptor = r.decryptor
  pageCount : reader.pageCount = r.pageCount

/-- A reader is its source, its keys and its page count. -/
theorem reader_eq {σ E : Type} {r r' : SqlCipherReader σ E} (hsource : r.source = r'.source)
    (hdecryptor : r.decryptor = r'.decryptor) (hcount : r.pageCount = r'.pageCount) : r = r' := by
  have hsize : r.fileSize = r'.fileSize := by rw [← r.fileSize_eq, ← r'.fileSize_eq, hcount, hdecryptor]
  cases r
  cases r'
  simp_all

theorem openSource_opens {s : Served} {source : ReadAt Unit IoError} (hopen : s.source = some source)
    (config : CipherConfig) (passphrase : Bytes) :
    Opens (openSource C (fileSource (serve world stdout)) config passphrase) s (Twin world stdout)
      (SqlCipherReader.open C source config passphrase ()).1 := by
  have hboth := fun before => SqlCipherReader.open_alike C (fileSource_alike world stdout hopen before) config passphrase
    (s := (s, before)) (t := ()) ⟨rfl, [], by simp⟩
  rcases hB : SqlCipherReader.open C source config passphrase () with ⟨e | r, t⟩
  · refine .error e ⟨rfl, rfl⟩ fun before => ?_
    have hopened := hboth before
    rw [hB] at hopened
    rcases hA : SqlCipherReader.open C (fileSource (serve world stdout)) config passphrase (s, before) with ⟨result, run⟩
    rw [hA] at hopened
    cases hopened with
    | error e hnext =>
      obtain ⟨hs, events, hevents⟩ := hnext
      exact ⟨events, by unfold openSource; rw [hA, ← hs, ← hevents]⟩
  · have hsource := (SqlCipherReader.open_eq_ok C hB).1
    let twin : SqlCipherReader (Run Host Served) IoError := ⟨fileSource (serve world stdout), r.decryptor, r.fileSize,
      r.pageCount, r.fileSize_eq, r.pageCount_pos, r.pageCount_lt⟩
    refine .ok (a := twin) ⟨rfl, rfl⟩ (fun before => ?_) ⟨rfl, by rw [hopen, hsource], rfl, rfl⟩
    have hopened := hboth before
    rw [hB] at hopened
    rcases hA : SqlCipherReader.open C (fileSource (serve world stdout)) config passphrase (s, before) with ⟨result, run⟩
    rw [hA] at hopened
    cases hopened with
    | ok hnext halike =>
      rename_i reader
      have hreader : reader = twin := reader_eq (SqlCipherReader.open_eq_ok C hA).1 halike.decryptor halike.pageCount
      obtain ⟨hs, events, hevents⟩ := hnext
      exact ⟨events, by unfold openSource; rw [hA, ← hs, ← hevents, hreader]⟩

theorem openEncryptedDatabase_opens (path : Path) (s : Served) :
    Opens (openEncryptedDatabase (serve world stdout) path) s
      (fun s' opened source => opened = fileSource (serve world stdout) ∧ s'.source = some source)
      (Cli.openEncryptedDatabase world path) := by
  have hask : Computes (ε := IoError) (ask (serve world stdout) (.openFile path)) s
      (.ok ((world.fs.openFile path).map fun _ => ())) { s with source := (world.fs.openFile path).toOption.or s.source } :=
    .ask _ _ _
  unfold openEncryptedDatabase Cli.openEncryptedDatabase
  rcases hopen : world.fs.openFile path with e | source
  · rw [hopen] at hask
    exact .error _ ⟨rfl, rfl⟩ (hask.orThrow _).bind_error
  · rw [hopen] at hask
    have hopened : Computes (ε := IoError) (orThrow (pathIoError "failed to open encrypted database" path)
        (ask (serve world stdout) (.openFile path)) >>= fun _ => pure (fileSource (serve world stdout))) s
        (.ok (fileSource (serve world stdout))) { s with source := some source } := (hask.orThrow _).bind (.pure _)
    have hsame : s.SameOutput { s with source := some source } := ⟨rfl, rfl⟩
    exact .ok hsame hopened ⟨rfl, rfl⟩

theorem openReader_opens (path : Path) (cipher : CipherArgs) (passphraseFile : Option Path) (s : Served) :
    Opens (openReader C (serve world stdout) path cipher passphraseFile) s (Twin world stdout)
      (Cli.openReader C world path cipher passphraseFile) := by
  have hresolved : Computes (ε := CliError) (orThrow (fun source =>
      CliError.io (pathIoError "failed to resolve encrypted database" path source)) (ask (serve world stdout) (.canonicalize path)))
      s ((world.fs.canonicalize path).mapError fun source =>
        .io (pathIoError "failed to resolve encrypted database" path source)) s := .orThrow _ (.ask _ _ _)
  have hpassphrase : Computes (ε := CliError) (orThrow CliError.io (ask (serve world stdout) (.readPassphrase passphraseFile))) s
      ((world.passphrase passphraseFile).mapError .io) s := .orThrow _ (.ask _ _ _)
  unfold openReader Cli.openReader
  refine .after (.lift _) fun config _ => .after ((checkCompanionFiles_computes world stdout path s).mapError CliError.io) fun _ _ => ?_
  refine .after hresolved fun resolved _ => .after ((checkCompanionFiles_computes world stdout resolved s).mapError CliError.io) fun _ _ => ?_
  refine .after hpassphrase fun passphrase _ => ((openEncryptedDatabase_opens world stdout resolved s).mapError CliError.io).bind ?_
  rintro s' opened source ⟨rfl, hopen⟩
  exact (openSource_opens C world stdout hopen config passphrase).mapError CliError.reader

/-! ## Opening a snapshot -/

theorem rejectJournal_computes (path : Path) (s : Served) :
    Computes (rejectJournal (serve world stdout) path) s (Turso.rejectJournal world.fs path) s := by
  have hask : Computes (ε := OpenError) (ask (serve world stdout) (.symlinkMetadata (companion path journalSuffix))) s
      (.ok (world.fs.symlinkMetadata (companion path journalSuffix))) s := .ask _ _ _
  unfold rejectJournal Turso.rejectJournal
  refine hask.bind ?_
  dsimp only
  rcases world.fs.symlinkMetadata (companion path journalSuffix) with error | metadata
  · dsimp only
    split
    · rename_i hkind
      exact .passed (not_not.2 hkind) _
    · rename_i hkind
      exact .refused hkind _
  · exact .throw _

theorem openWalInput_computes (path : Path) (s : Served) :
    Computes (openWalInput (serve world stdout) path) s (WalInput.open world.fs path) s := by
  unfold openWalInput WalInput.open
  refine (rejectJournal_computes world stdout path s).seq fun _ _ => ?_
  refine Computes.seq (.orThrow _ (.ask _ _ _)) fun resolved _ => ?_
  refine (rejectJournal_computes world stdout resolved s).seq fun _ _ => ?_
  refine Computes.seq (.orThrow _ (.ask _ _ _)) fun main _ => ?_
  refine Computes.guard fun _ => ?_
  refine Computes.seq (.orThrow _ (.ask _ _ _)) fun main _ => ?_
  refine Computes.guard fun _ => ?_
  -- a WAL beside an alias
  have hask : Computes (ε := OpenError) (ask (serve world stdout) (.symlinkMetadata (companion path walSuffix))) s
      (.ok (world.fs.symlinkMetadata (companion path walSuffix))) s := .ask _ _ _
  refine hask.bind ?_
  dsimp only
  rcases world.fs.symlinkMetadata (companion path walSuffix) with error | metadata
  · exact .guard fun _ => .guard fun _ => .pure _
  · refine Computes.seq (.orThrow _ (.ask _ _ _)) fun beside _ => ?_
    refine Computes.seq (.orThrow _ (.ask _ _ _)) fun sibling _ => ?_
    exact .guard fun _ => .guard fun _ => .pure _

/-- The checks of the file and the codec made for it. -/
theorem openCodec_opens (resolved : Path) (config : CipherConfig) (passphrase : Bytes) (walPages : Option Nat) (s : Served) :
    ∃ result, Turso.openCodec C world.fs resolved config passphrase walPages = some result ∧
      Opens (openCodec C (serve world stdout) resolved config passphrase walPages) s (fun _ a b => a = b) result := by
  have hps := config.pageSize_ge
  have hsame : ∀ source, s.SameOutput { s with source := source } := fun source => ⟨rfl, rfl⟩
  unfold openCodec Turso.openCodec
  by_cases hempty : passphrase = []
  · rw [if_pos hempty]
    exact ⟨_, rfl, .error _ ⟨rfl, rfl⟩ (Computes.refused hempty _).bind_error⟩
  rw [if_neg hempty]
  refine Opens.exists_prepend ⟨rfl, rfl⟩ (.passed hempty _) ?_
  rcases hstr : toStr resolved with _ | path
  · exact ⟨_, rfl, .error _ ⟨rfl, rfl⟩ (Computes.lift _).bind_error⟩
  refine Opens.exists_prepend ⟨rfl, rfl⟩ (.lift _) ?_
  -- the file is the served one from here on
  have hfile : Computes (ε := OpenError) (orThrow OpenError.io (ask (serve world stdout) (.openFile resolved))) s
      (((world.fs.openFile resolved).map fun _ => ()).mapError .io)
      { s with source := (world.fs.openFile resolved).toOption.or s.source } := .orThrow _ (.ask _ _ _)
  rcases hopen : world.fs.openFile resolved with e | source
  · rw [hopen] at hfile
    exact ⟨_, rfl, .error _ ⟨rfl, rfl⟩ hfile.bind_error⟩
  rw [hopen] at hfile
  refine Opens.exists_prepend (hsame (some source)) hfile ?_
  have hserved : ({ s with source := some source } : Served).source = some source := rfl
  generalize ({ s with source := some source } : Served) = s1 at hserved
  have hsize : Computes (ε := OpenError) (orThrow OpenError.io (ask (serve world stdout) .fileLen)) s1
      (((source.len ()).1).mapError .io) s1 := by
    have hask := Computes.ask (ε := OpenError) (serve world stdout) s1 .fileLen
    rw [serve_fileLen world stdout hserved] at hask
    exact hask.orThrow _
  dsimp only
  rcases hlen : (source.len ()).1 with e | size
  · rw [hlen] at hsize
    exact ⟨_, rfl, .error _ ⟨rfl, rfl⟩ hsize.bind_error⟩
  rw [hlen] at hsize
  refine Opens.exists_prepend ⟨rfl, rfl⟩ hsize ?_
  dsimp only
  -- the checks of the length are made on both sides alike
  by_cases h0 : size = 0
  · rw [if_pos h0]
    exact ⟨_, rfl, .error _ ⟨rfl, rfl⟩ (Computes.refused h0 _).bind_error⟩
  rw [if_neg h0]
  refine Opens.exists_prepend ⟨rfl, rfl⟩ (.passed h0 _) ?_
  by_cases hsmall : size < config.pageSize
  · rw [if_pos hsmall]
    exact ⟨_, rfl, .error _ ⟨rfl, rfl⟩ (Computes.refused hsmall _).bind_error⟩
  rw [if_neg hsmall]
  refine Opens.exists_prepend ⟨rfl, rfl⟩ (.passed hsmall _) ?_
  by_cases hmul : size % config.pageSize ≠ 0
  · rw [if_pos hmul]
    exact ⟨_, rfl, .error _ ⟨rfl, rfl⟩ (Computes.refused hmul _).bind_error⟩
  rw [if_neg hmul]
  refine Opens.exists_prepend ⟨rfl, rfl⟩ (.passed hmul _) ?_
  rcases tryFrom 32 (size / config.pageSize) with _ | pageCount
  · exact ⟨_, rfl, .error _ ⟨rfl, rfl⟩ (Computes.lift _).bind_error⟩
  refine Opens.exists_prepend ⟨rfl, rfl⟩ (.lift _) ?_
  -- page 1, and its salt
  have hread := Computes.ask (ε := OpenError) (serve world stdout) s1
    (.readExactAt 0 (List.replicate config.pageSize 0))
  rw [serve_readExactAt world stdout hserved] at hread
  refine Opens.exists_prepend ⟨rfl, rfl⟩ hread ?_
  have hbuffer := source.length_readExactAt 0 (List.replicate config.pageSize 0) ()
  dsimp only
  generalize (source.readExactAt 0 (List.replicate config.pageSize 0) ()).1 = read at hbuffer
  rw [List.length_replicate] at hbuffer
  rcases hresult : read.result with e | _
  · exact ⟨_, rfl, .error _ ⟨rfl, rfl⟩ (Computes.lift _).bind_error⟩
  refine Opens.exists_prepend ⟨rfl, rfl⟩ (.lift _) ?_
  have htake : (read.buffer.take 16).length = 16 := by
    rw [List.length_take]
    omega
  have hslice : slice read.buffer 0 16 = some (read.buffer.take 16) := slice_eq_some (Nat.zero_le 16) (by omega)
  have hsalt : (slice read.buffer 0 16).bind (Arr.ofList 16) = some ⟨read.buffer.take 16, htake⟩ := by
    rw [hslice]
    exact Arr.ofList_eq_some htake
  refine Opens.exists_prepend ⟨rfl, rfl⟩ (.panicking hsalt) ?_
  simp only [hslice, Arr.ofList_eq_some htake, Option.bind_eq_bind, Option.bind_some]
  rcases PageDecryptor.new C config passphrase ⟨read.buffer.take 16, htake⟩ with e | decoder
  · exact ⟨_, rfl, .error _ ⟨rfl, rfl⟩ (Computes.lift _).bind_error⟩
  refine Opens.exists_prepend ⟨rfl, rfl⟩ (.lift _) ?_
  have hpage := decoder.decryptPageInPlace_eq C .min read.buffer
  refine Opens.exists_prepend ⟨rfl, rfl⟩ (.panicking hpage) ?_
  dsimp only
  rw [hpage, Option.bind_some]
  rcases decoder.openPage C .min read.buffer with e | plain
  · exact ⟨_, rfl, .error _ ⟨rfl, rfl⟩ (Computes.lift _).bind_error⟩
  · exact ⟨_, rfl, .prepend ⟨rfl, rfl⟩ (.lift _) (.ok ⟨rfl, rfl⟩ (.pure _) rfl)⟩

/-- The engine, through the registry of a fresh process. -/
theorem openConnection_opens (resolved : Path) (config : CipherConfig) (passphrase : Bytes) (walPages : Option Nat) (s : Served) :
    ∃ result, (∃ registry, Turso.openConnection C world.fs world.engine resolved config passphrase walPages emptyRegistry =
        some (result, registry)) ∧
      Opens (openConnection C (serve world stdout) resolved config passphrase walPages) s
        (fun s' maximum opened => maximum = opened.2 ∧ ∃ codec, s'.codec = some codec ∧
          opened.1.pager = world.engine.readPage codec) result := by
  obtain ⟨codec, hcodec, hopens⟩ := openCodec_opens C world stdout resolved config passphrase walPages s
  unfold openConnection Turso.openConnection
  rw [hcodec]
  cases hopens with
  | error e h hx => exact ⟨_, ⟨_, rfl⟩, .error e h hx.bind_error⟩
  | @ok a b s1 h hx hR =>
    obtain rfl : a = b := hR
    refine Opens.exists_prepend h hx ?_
    have hplatform : Computes (ε := OpenError) (orThrow OpenError.turso (ask (serve world stdout) .platformIo)) s1
        ((failing world.engine.platformIo).mapError .turso) s1 := .orThrow _ (.ask _ _ _)
    have hdatabase : Computes (ε := OpenError) (orThrow OpenError.turso (ask (serve world stdout) (.openDatabase resolved a.1))) s1
        ((failing world.engine.openDatabase).mapError .turso) { s1 with codec := some a.1 } := .orThrow _ (.ask _ _ _)
    have hconnect : Computes (ε := OpenError) (orThrow OpenError.turso (ask (serve world stdout) (.connect a.1)))
        { s1 with codec := some a.1 } ((failing world.engine.connect).mapError .turso) { s1 with codec := some a.1 } :=
      .orThrow _ (.ask _ _ _)
    have hsame : s1.SameOutput { s1 with codec := some a.1 } := ⟨rfl, rfl⟩
    simp only [attach, Turso.openDatabase, emptyRegistry, Option.bind_eq_bind, Option.bind_some]
    -- the engine is asked three times, and any of them may fail
    rcases hfailing : world.engine.platformIo with _ | e
    · rw [hfailing] at hplatform
      refine Opens.exists_prepend ⟨rfl, rfl⟩ hplatform ?_
      rcases hfailing : world.engine.openDatabase with _ | e
      · rw [hfailing] at hdatabase
        refine Opens.exists_prepend hsame hdatabase ?_
        rcases hfailing : world.engine.connect with _ | e
        · rw [hfailing] at hconnect
          exact ⟨_, ⟨_, rfl⟩, .prepend ⟨rfl, rfl⟩ hconnect (.ok ⟨rfl, rfl⟩ (.pure _) ⟨rfl, a.1, rfl, rfl⟩)⟩
        · rw [hfailing] at hconnect
          exact ⟨_, ⟨_, rfl⟩, .error _ ⟨rfl, rfl⟩ hconnect.bind_error⟩
      · rw [hfailing] at hdatabase
        exact ⟨_, ⟨_, rfl⟩, .error _ hsame hdatabase.bind_error⟩
    · rw [hfailing] at hplatform
      exact ⟨_, ⟨_, rfl⟩, .error _ ⟨rfl, rfl⟩ hplatform.bind_error⟩

/-- The two models have one snapshot, and the environment reads its pages. -/
structure Shown (s : Served) (shown : WalSnapshot) (snapshot : Turso.WalSnapshot) : Prop where
  pageCount : shown.pageCount = snapshot.pageCount
  pageSize : shown.pageSize = snapshot.pageSize
  pager : ∃ codec, s.codec = some codec ∧ snapshot.connection.pager = world.engine.readPage codec

theorem beginSnapshot_opens (config : CipherConfig) (connection : Connection) (maximum : Nat) {s : Served}
    (hpager : ∃ codec, s.codec = some codec ∧ connection.pager = world.engine.readPage codec) :
    Opens (beginSnapshot (serve world stdout) config maximum) s (Shown world)
      (Turso.beginSnapshot world.engine config connection maximum) := by
  have hbegin : Computes (ε := OpenError) (orThrow OpenError.turso (ask (serve world stdout) .beginRead)) s
      ((failing world.engine.beginRead).mapError .turso) s := .orThrow _ (.ask _ _ _)
  have hcount : Computes (ε := OpenError) (orThrow OpenError.turso (ask (serve world stdout) .pageCount)) s
      (world.engine.pageCount.mapError .turso) s := .orThrow _ (.ask _ _ _)
  unfold beginSnapshot Turso.beginSnapshot
  rcases hfailing : world.engine.beginRead with _ | e
  · rw [hfailing] at hbegin
    refine .prepend ⟨rfl, rfl⟩ hbegin ?_
    rcases hcounted : world.engine.pageCount with e | count
    · rw [hcounted] at hcount
      exact .error _ ⟨rfl, rfl⟩ hcount.bind_error
    rw [hcounted] at hcount
    refine .prepend ⟨rfl, rfl⟩ hcount ?_
    dsimp only
    split
    · rename_i h
      exact .prepend ⟨rfl, rfl⟩ (.passed (not_not.2 h) _) (.ok ⟨rfl, rfl⟩ (.pure _) ⟨rfl, rfl, hpager⟩)
    · rename_i h
      exact .error _ ⟨rfl, rfl⟩ (Computes.refused h _).bind_error
  · rw [hfailing] at hbegin
    exact .error _ ⟨rfl, rfl⟩ hbegin.bind_error

theorem snapshot_opens (input : WalInput) (config : CipherConfig) (passphrase : Bytes) (s : Served) :
    ∃ result, (∃ registry, WalInput.snapshot C world.fs world.engine input config passphrase emptyRegistry =
        some (result, registry)) ∧
      Opens (snapshot C (serve world stdout) input config passphrase) s (Shown world) result := by
  obtain ⟨opened, ⟨registry, hconnection⟩, hopens⟩ := openConnection_opens C world stdout input.path config passphrase
    (some (input.frames config)) s
  unfold snapshot WalInput.snapshot WalInput.connect
  rw [hconnection]
  cases hopens with
  | error e h hx => exact ⟨_, ⟨_, rfl⟩, .error e h hx.bind_error⟩
  | @ok maximum opened s1 h hx hR =>
    obtain ⟨rfl, hpager⟩ := hR
    exact ⟨_, ⟨_, rfl⟩, .prepend h hx (beginSnapshot_opens world stdout config opened.1 opened.2 hpager)⟩

theorem openWalSnapshot_opens (path : Path) (cipher : CipherArgs) (passphraseFile : Option Path) (s : Served) :
    ∃ result, Cli.openWalSnapshot C world path cipher passphraseFile = some result ∧
      Opens (openWalSnapshot C (serve world stdout) path cipher passphraseFile) s (Shown world) result := by
  have hinput := (openWalInput_computes world stdout path s).mapError CliError.openDatabase
  have hpassphrase : Computes (ε := CliError) (orThrow CliError.io (ask (serve world stdout) (.readPassphrase passphraseFile))) s
      ((world.passphrase passphraseFile).mapError .io) s := .orThrow _ (.ask _ _ _)
  unfold openWalSnapshot Cli.openWalSnapshot
  rcases cipher.config with e | config
  · exact ⟨_, rfl, .error _ ⟨rfl, rfl⟩ (Computes.lift _).bind_error⟩
  refine Opens.exists_prepend ⟨rfl, rfl⟩ (.lift _) ?_
  rcases hopen : WalInput.open world.fs path with e | input
  · rw [hopen] at hinput
    exact ⟨_, rfl, .error _ ⟨rfl, rfl⟩ hinput.bind_error⟩
  rw [hopen] at hinput
  refine Opens.exists_prepend ⟨rfl, rfl⟩ hinput ?_
  rcases hgiven : world.passphrase passphraseFile with e | passphrase
  · rw [hgiven] at hpassphrase
    exact ⟨_, rfl, .error _ ⟨rfl, rfl⟩ hpassphrase.bind_error⟩
  rw [hgiven] at hpassphrase
  refine Opens.exists_prepend ⟨rfl, rfl⟩ hpassphrase ?_
  obtain ⟨result, hresult, hopens⟩ := snapshot_opens C world stdout input config passphrase s
  obtain ⟨registry, hsnapshot⟩ := hresult
  refine ⟨result.mapError .openDatabase, ?_, hopens.mapError _⟩
  show (WalInput.snapshot C world.fs world.engine input config passphrase emptyRegistry).bind _ = _
  rw [hsnapshot]
  rfl

end Opening

end Veilite.Cli.Stepwise

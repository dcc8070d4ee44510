/-
`snapshot.rs` and `lib.rs`: the checks before an open, the open itself through the engine's process-wide
registry, and the traversal of a snapshot's pages. The file system is what it answers, files unchanging.
The engine is a parameter: which of its calls fail, and what it reads for a page.
-/
import Veilite.Core.Pages
import Veilite.Turso.Codec

namespace Veilite.Turso

open Buffer Veilite.Core Traverse

/-! ## The file system -/

structure Metadata where
  isFile : Bool
  len : Nat
deriving DecidableEq, Repr

/-- What identifies a file to the engine: hard links share it. -/
abbrev FileId := Nat

/-- What the file system answers, for paths as they are given. -/
structure FsView where
  symlinkMetadata : Path → Except IoError Metadata
  metadata : Path → Except IoError Metadata
  canonicalize : Path → Except IoError Path
  openFile : Path → Except IoError (ReadAt Unit IoError)
  fileId : Path → FileId

/-- `path.to_str()`: none when the path is not UTF-8. -/
def toStr (path : Path) : Option Bytes :=
  if ByteArray.validateUTF8 ⟨path.bytes.toArray⟩ then some path.bytes else none

/-- `"-wal"`. -/
def walSuffix : Bytes := [0x2d, 0x77, 0x61, 0x6c]

/-- `"-journal"`. -/
def journalSuffix : Bytes := [0x2d, 0x6a, 0x6f, 0x75, 0x72, 0x6e, 0x61, 0x6c]

/-- The path with a suffix pushed onto it. -/
def companion (path : Path) (suffix : Bytes) : Path := ⟨path.bytes ++ suffix⟩

/-! ## Errors -/

/-- Failure to open an immutable encrypted database. -/
inductive OpenError
  | io (error : IoError)
  | nonUtf8Path
  | companion (path : Path)
  | walInput (message : Message)
  | snapshotSize (count : Int) (maximum : Nat)
  | source (error : ReaderError IoError)
  | decrypt (error : DecryptError)
  | turso (error : LimboError)
deriving DecidableEq

def OpenError.message : OpenError → Message
  | .io error => .text "database filesystem access failed: " :: error.message
  | .nonUtf8Path => [.text "database path is not valid UTF-8"]
  | .companion path => [.text "unsupported database companion: ", .debug path]
  | .walInput message => .text "invalid WAL snapshot input: " :: message
  | .snapshotSize count maximum =>
    [.text s!"invalid snapshot page count {count}; input can contain at most {maximum} pages"]
  | .source error => error.message
  | .decrypt error => [.text error.toString]
  | .turso error => .text "Turso failed to open the database: " :: error.message

/-- Failure while reading or delivering authenticated snapshot pages. -/
inductive VisitError
  | read (error : LimboError)
  | callback (error : IoError)
  | pageLength (expected actual : Nat)
deriving DecidableEq

def VisitError.message : VisitError → Message
  | .read error => .text "snapshot page read failed: " :: error.message
  | .callback error => .text "snapshot page callback failed: " :: error.message
  | .pageLength expected actual => [.text s!"invalid snapshot page length: expected {expected}, got {actual}"]

/-! ## The engine -/

/-- What one call asks of the engine: which steps fail and how, the page count it reports, and its reads of
the selected image's pages through a codec. -/
structure Engine where
  platformIo : Option LimboError
  openDatabase : Option LimboError
  codecMismatch : LimboError
  connect : Option LimboError
  beginRead : Option LimboError
  pageCount : Except LimboError Int
  readPage : SqlCipherCodec → Nat → Except LimboError Bytes

/-- The process-wide registry: the codec identity each file was first opened with. -/
abbrev Registry := FileId → Option PageCodecId

structure Connection where
  codec : SqlCipherCodec
  entry : FileId
  pager : Nat → Except LimboError Bytes

/-- `Database::open`: a file already registered is refused to another codec identity, a new one registers
unless the engine rejects it. -/
def openDatabase (engine : Engine) (file : FileId) (codec : SqlCipherCodec) (registry : Registry) :
    Except LimboError Unit × Registry :=
  match registry file with
  | some id =>
    if id ≠ codec.id then (.error engine.codecMismatch, registry)
    else match engine.openDatabase with
      | some e => (.error e, registry)
      | none => (.ok (), registry)
  | none => match engine.openDatabase with
    | some e => (.error e, registry)
    | none => (.ok (), Function.update registry file (some codec.id))

/-! ## Opening -/

section Open

variable (C : Primitives) (fs : FsView)

/-- The first half of `open_connection`: everything before the engine. The caller's key authenticates page 1
of the file that is there; with the codec comes the bound on the snapshot's pages. -/
def openCodec (resolved : Path) (config : CipherConfig) (passphrase : Bytes) (walPages : Option Nat) :
    Option (Except OpenError (SqlCipherCodec × Nat)) :=
  if passphrase = [] then some (.error (.decrypt .emptyPassphrase))
  else match toStr resolved with
  | none => some (.error .nonUtf8Path)
  | some path => match fs.openFile resolved with
    | .error e => some (.error (.io e))
    | .ok source => match (source.len ()).1 with
      | .error e => some (.error (.io e))
      | .ok size =>
        let pageSize := config.pageSize
        if size = 0 then some (.error (.source .emptyFile))
        else if size < pageSize then some (.error (.source (.fileTooSmall size pageSize)))
        else if size % pageSize ≠ 0 then some (.error (.source (.invalidFileSize size pageSize)))
        else match tryFrom 32 (size / pageSize) with
          | none => some (.error (.source (.tooManyPages (size / pageSize))))
          | some pageCount =>
            let firstPage := (source.readExactAt 0 (List.replicate pageSize 0) ()).1
            match firstPage.result with
            | .error e => some (.error (.io e))
            | .ok () => do
              let salt ← Arr.ofList 16 (← slice firstPage.buffer 0 16)
              -- the salt is the file's own, the key the caller's: no earlier open has a part in it
              match PageDecryptor.new C config passphrase salt with
              | .error e => return .error (.decrypt e)
              | .ok decoder =>
                let page ← decoder.decryptPageInPlace C .min firstPage.buffer
                match page.result with
                | .error e => return .error (.decrypt e)
                | .ok () =>
                  return .ok (.new C decoder config salt pageCount walPages (walPages.map fun _ => path),
                    saturatingAdd 32 pageCount (walPages.getD 0))

/-- The second half of `open_connection`: the engine, its registry and the connection. -/
def attach (engine : Engine) (resolved : Path) (codec : SqlCipherCodec) (registry : Registry) :
    Except OpenError Connection × Registry :=
  match engine.platformIo with
  | some e => (.error (.turso e), registry)
  | none =>
    let database := openDatabase engine (fs.fileId resolved) codec registry
    match database.1 with
    | .error e => (.error (.turso e), database.2)
    | .ok () => match engine.connect with
      | some e => (.error (.turso e), database.2)
      | none => (.ok ⟨codec, fs.fileId resolved, engine.readPage codec⟩, database.2)

def openConnection (engine : Engine) (resolved : Path) (config : CipherConfig) (passphrase : Bytes)
    (walPages : Option Nat) (registry : Registry) : Option (Except OpenError (Connection × Nat) × Registry) := do
  match ← openCodec C fs resolved config passphrase walPages with
  | .error e => return (.error e, registry)
  | .ok codec =>
    let attached := attach fs engine resolved codec.1 registry
    return (attached.1.map fun connection => (connection, codec.2), attached.2)

def rejectJournal (path : Path) : Except OpenError Unit :=
  let journal := companion path journalSuffix
  match fs.symlinkMetadata journal with
  | .ok _ => .error (.companion journal)
  | .error e => if e.kind = .notFound then .ok () else .error (.io e)

/-- `check_companions`: the WAL is looked for first. -/
def checkCompanions (path : Path) : Except OpenError Unit :=
  [walSuffix, journalSuffix].forM fun suffix =>
    match fs.symlinkMetadata (companion path suffix) with
    | .ok _ => .error (.companion (companion path suffix))
    | .error e => if e.kind = .notFound then .ok () else .error (.io e)

/-- `open_main`, up to the connection: the path it opens. -/
def resolveMain (path : Path) (passphrase : Bytes) : Except OpenError Path := do
  if passphrase = [] then throw (.decrypt .emptyPassphrase)
  checkCompanions fs path
  let resolved ← (fs.canonicalize path).mapError .io
  checkCompanions fs resolved
  return resolved

/-- `open_main`, which `open_readonly` is. -/
def openMain (engine : Engine) (path : Path) (config : CipherConfig) (passphrase : Bytes) (registry : Registry) :
    Option (Except OpenError Connection × Registry) :=
  match resolveMain fs path passphrase with
  | .error e => some (.error e, registry)
  | .ok resolved => do
    let opened ← openConnection C fs engine resolved config passphrase none registry
    return (opened.1.map Prod.fst, opened.2)

/-- A preflight-checked, canonical main path and the size of its sibling WAL. -/
structure WalInput where
  path : Path
  walSize : Nat
deriving DecidableEq, Repr

def WalInput.open (path : Path) : Except OpenError WalInput := do
  rejectJournal fs path
  let resolved ← (fs.canonicalize path).mapError .io
  rejectJournal fs resolved
  if ¬ (← (fs.metadata resolved).mapError .io).isFile then
    throw (.walInput [.text "main database is not a regular file"])
  let wal := companion resolved walSuffix
  let metadata ← (fs.metadata wal).mapError fun error =>
    .io ⟨error.kind, [.text "failed to inspect WAL ", .debug wal, .text ": "] ++ error.message⟩
  if ¬ metadata.isFile then throw (.walInput [.text "WAL is not a regular file: ", .debug wal])
  -- a WAL beside an alias has to be the same file
  let aliasWal := companion path walSuffix
  match fs.symlinkMetadata aliasWal with
  | .ok _ =>
    if (← (fs.canonicalize aliasWal).mapError .io) ≠ (← (fs.canonicalize wal).mapError .io) then
      throw (.walInput [.text "conflicting WAL beside input alias: ", .debug aliasWal])
  | .error error => if error.kind ≠ .notFound then throw (.io error)
  if toStr resolved = none then throw .nonUtf8Path
  return ⟨resolved, metadata.len⟩

namespace WalInput

/-- Complete frames the WAL can hold, as `connect` bounds them. -/
def frames (input : WalInput) (config : CipherConfig) : Nat :=
  (tryFrom 32 ((input.walSize - 32) / (config.pageSize + 24))).getD (2 ^ 32 - 1)

def connect (engine : Engine) (input : WalInput) (config : CipherConfig) (passphrase : Bytes) (registry : Registry) :
    Option (Except OpenError (Connection × Nat) × Registry) :=
  openConnection C fs engine input.path config passphrase (some (input.frames config)) registry

end WalInput

/-- `open_readonly_with_wal`. -/
def openReadonlyWithWal (engine : Engine) (path : Path) (config : CipherConfig) (passphrase : Bytes)
    (registry : Registry) : Option (Except OpenError Connection × Registry) :=
  match WalInput.open fs path with
  | .error e => some (.error e, registry)
  | .ok input => do
    let opened ← input.connect C fs engine config passphrase registry
    return (opened.1.map Prod.fst, opened.2)

/-- A private read transaction over one selected DB/WAL image: a positive `u32` of pages of a configured
size. -/
structure WalSnapshot where
  connection : Connection
  pageCount : Nat
  pageSize : Nat
  pageCount_pos : 0 < pageCount
  pageCount_lt : pageCount < 2 ^ 32
  pageSize_eq : ∃ config : CipherConfig, config.pageSize = pageSize

/-- The read transaction of `snapshot`, and the page count it selects. -/
def beginSnapshot (engine : Engine) (config : CipherConfig) (connection : Connection) (maximum : Nat) :
    Except OpenError WalSnapshot :=
  match engine.beginRead with
  | some e => .error (.turso e)
  | none => match engine.pageCount with
    | .error e => .error (.turso e)
    | .ok count =>
      if h : 0 ≤ count ∧ count < 2 ^ 32 ∧ count.toNat > 0 ∧ count.toNat ≤ maximum then
        .ok {
          connection, pageCount := count.toNat, pageSize := config.pageSize
          pageCount_pos := h.2.2.1
          pageCount_lt := by omega
          pageSize_eq := ⟨config, rfl⟩ }
      else .error (.snapshotSize count maximum)

def WalInput.snapshot (engine : Engine) (input : WalInput) (config : CipherConfig) (passphrase : Bytes)
    (registry : Registry) : Option (Except OpenError WalSnapshot × Registry) := do
  let opened ← input.connect C fs engine config passphrase registry
  match opened.1 with
  | .error e => return (.error e, opened.2)
  | .ok (connection, maximum) => return (beginSnapshot engine config connection maximum, opened.2)

end Open

/-! ## Traversal -/

namespace WalSnapshot

variable {τ : Type} (snapshot : WalSnapshot) (visit : NonZeroU32 → Bytes → τ → Option (Except IoError Unit × τ))

/-- One round of `visit_pages`; the callback may fail or panic. -/
def visitPage (number : Nat) (t : τ) : Option (Except VisitError Unit × τ) :=
  match NonZeroU32.new number with
  | none => some (.error (.read (.invalidArgument "snapshot page zero")), t)
  | some pageNo => match snapshot.connection.pager number with
    | .error e => some (.error (.read e), t)
    | .ok bytes =>
      if bytes.length ≠ snapshot.pageSize then
        some (.error (.pageLength snapshot.pageSize bytes.length), t)
      else (visit pageNo bytes t).map fun visited => (visited.1.mapError .callback, visited.2)

/-- Authenticates and visits pages `1..=page_count` in order. -/
def visitPages (t : τ) : Option (Except VisitError Unit × τ) :=
  forEach (snapshot.visitPage visit) (List.range' 1 snapshot.pageCount) t

/-- A page of the selected image as the traversal accepts it from the engine. -/
def selectedPage (pageNo : NonZeroU32) : Except VisitError Bytes :=
  match snapshot.connection.pager pageNo.get with
  | .error e => .error (.read e)
  | .ok bytes =>
    if bytes.length ≠ snapshot.pageSize then .error (.pageLength snapshot.pageSize bytes.length) else .ok bytes

theorem selectedPage_length {pageNo : NonZeroU32} {bytes : Bytes} (h : snapshot.selectedPage pageNo = .ok bytes) :
    bytes.length = snapshot.pageSize := by
  unfold selectedPage at h
  split at h
  · cases h
  · split at h
    · cases h
    · rename_i hlen
      cases h
      exact not_not.1 hlen

/-- The traversal delivers the selected pages `1..=page_count` to the callback. -/
theorem visitPages_eq (t : τ) :
    snapshot.visitPages visit t = forEach (deliver snapshot.selectedPage fun pageNo bytes t =>
      (visit pageNo bytes t).map fun visited => (visited.1.mapError .callback, visited.2)) (pageNumbers snapshot.pageCount) t := by
  have hstep : (fun pageNo : NonZeroU32 => snapshot.visitPage visit pageNo.get) =
      deliver snapshot.selectedPage fun pageNo bytes t =>
        (visit pageNo bytes t).map fun visited => (visited.1.mapError .callback, visited.2) := by
    funext pageNo t
    unfold visitPage deliver selectedPage
    rw [NonZeroU32.new_eq_some pageNo.pos pageNo.lt]
    dsimp only
    rcases snapshot.connection.pager pageNo.get with e | bytes
    · rfl
    dsimp only
    by_cases hlen : bytes.length ≠ snapshot.pageSize
    · rw [if_pos hlen, if_pos hlen]
    · rw [if_neg hlen, if_neg hlen]
  unfold visitPages
  rw [forEach_pageNumbers _ snapshot.pageCount_lt, hstep]

/-- The bytes of a selected page, none when it does not read. -/
def pageBytes (pageNo : NonZeroU32) : Bytes :=
  match snapshot.selectedPage pageNo with
  | .ok bytes => bytes
  | .error _ => []

/-- The selected plaintext image. -/
def image : Bytes := (pageNumbers snapshot.pageCount).flatMap snapshot.pageBytes

theorem pageBytes_of_selectedPage {pageNo : NonZeroU32} {bytes : Bytes} (h : snapshot.selectedPage pageNo = .ok bytes) :
    snapshot.pageBytes pageNo = bytes := by
  unfold pageBytes
  rw [h]

/-- The image is what a traversal delivers. -/
theorem visitPages_collect
    (h : ∀ pageNo : NonZeroU32, pageNo.get ≤ snapshot.pageCount → ∃ bytes, snapshot.selectedPage pageNo = .ok bytes) :
    snapshot.visitPages collect [] = some (.ok (), snapshot.image) := by
  rw [snapshot.visitPages_eq]
  exact forEach_deliver_collect snapshot.pageBytes (fun pageNo bytes => snapshot.pageBytes_of_selectedPage)
    (fun pageNo hmem => h pageNo (mem_pageNumbers.1 hmem)) []

/-- And the only thing a traversal that collects can succeed with. -/
theorem visitPages_collect_iff {image : Bytes} : snapshot.visitPages collect [] = some (.ok (), image) ↔
    (∀ pageNo : NonZeroU32, pageNo.get ≤ snapshot.pageCount → ∃ bytes, snapshot.selectedPage pageNo = .ok bytes) ∧
      image = snapshot.image := by
  constructor
  · intro h
    have hread : ∀ pageNo : NonZeroU32, pageNo.get ≤ snapshot.pageCount → ∃ bytes, snapshot.selectedPage pageNo = .ok bytes := by
      rw [snapshot.visitPages_eq] at h
      obtain ⟨hread, -⟩ := forEach_deliver_append (fun _ => ([] : Bytes)) (fun _ => []) (fun _ _ _ _ _ _ => rfl) h
      exact fun pageNo hle => hread pageNo (mem_pageNumbers.2 hle)
    rw [snapshot.visitPages_collect hread] at h
    cases h
    exact ⟨hread, rfl⟩
  · rintro ⟨hread, rfl⟩
    exact snapshot.visitPages_collect hread

end WalSnapshot

end Veilite.Turso

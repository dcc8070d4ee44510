/-
What the events of a run say about one another: what was found before the passphrase was asked for, under which key
and from which answers each written page comes, and what becomes of the destination. All of it is read off the
policy, so it holds in every environment.
-/
import Veilite.Cli.Compliance

namespace Veilite.Cli.Stepwise

open Buffer Veilite.Core Turso Interact

/-! ## Events -/

/-- The call was made, and answered so. -/
def Answered (events : List (Event Host)) (call : Call) (reply : call.Reply) : Prop :=
  (⟨call, reply⟩ : Event Host) ∈ events

/-- A look at the file system. -/
def Call.Looks : Call → Prop
  | .symlinkMetadata _ | .metadata _ | .canonicalize _ => True
  | _ => False

/-- What a call does to the world outside the process, and whether it succeeded. -/
inductive Effect
  | create (path : Path) (done : Bool)
  | write (bytes : Bytes) (done : Bool)
  | sync (done : Bool)
  | remove (path : Path) (done : Bool)

def effect : Event Host → Option Effect
  | ⟨.createNew path, reply⟩ => some (.create path (Except.isOk (reply : Except IoError Unit)))
  | ⟨.writeAll bytes, reply⟩ => some (.write bytes (Except.isOk (reply : Except IoError Unit)))
  | ⟨.syncAll, reply⟩ => some (.sync (Except.isOk (reply : Except IoError Unit)))
  | ⟨.removeFile path, reply⟩ => some (.remove path (Except.isOk (reply : Except IoError Unit)))
  | _ => none

def effects (events : List (Event Host)) : List Effect := events.filterMap effect

@[simp] theorem effects_nil : effects [] = [] := rfl

@[simp] theorem effects_append (before events : List (Event Host)) :
    effects (before ++ events) = effects before ++ effects events := List.filterMap_append

section Events

variable {events : List (Event Host)} {call : Call} {reply : call.Reply} (event : Event Host)

theorem Answered.more (h : Answered events call reply) : Answered (events ++ [event]) call reply :=
  List.mem_append_left _ h

@[simp] theorem effects_singleton : effects [event] = (effect event).toList := by
  unfold effects
  rw [List.filterMap_cons, List.filterMap_nil]
  cases effect event <;> rfl

@[simp] theorem answered_last : Answered (events ++ [⟨call, reply⟩]) call reply := by simp [Answered]

end Events

/-! ## What has been found -/

section Knowledge

variable (events : List (Event Host))

/-- There was no entry at the path. -/
def Vacant (path : Path) : Prop :=
  ∃ e, Answered events (.symlinkMetadata path) (.error e) ∧ e.kind = .notFound

/-- There was a regular file of this length at the path. -/
def Regular (path : Path) (size : Nat) : Prop :=
  ∃ metadata, Answered events (.metadata path) (.ok metadata) ∧ metadata.isFile = true ∧ metadata.len = size

variable (C : Primitives) (config : CipherConfig) (job : Job)

/-- The input was found to resolve, to have no journal, and to have no WAL, or with `--wal` to be a regular file with a
regular one, its path text, and beside the path given no WAL or a way to the same one. -/
structure Checked (resolved : Path) : Prop where
  real : Answered events (.canonicalize job.inputPath) (.ok resolved)
  journal : ∀ base ∈ [job.inputPath, resolved], Vacant events (companion base journalSuffix)
  alone : job.wal = false → ∀ base ∈ [job.inputPath, resolved], Vacant events (companion base walSuffix)
  pair : job.wal = true → toStr resolved ≠ none ∧ (∃ size, Regular events resolved size) ∧
    (∃ size, Regular events (companion resolved walSuffix) size) ∧
    (Vacant events (companion job.inputPath walSuffix) ∨ ∃ path,
      Answered events (.canonicalize (companion job.inputPath walSuffix)) (.ok path) ∧
      Answered events (.canonicalize (companion resolved walSuffix)) (.ok path))

/-- The findings were answered. -/
structure Findings.Known (found : Findings) : Prop where
  vacant : ∀ path ∈ found.vacant, Vacant events path
  files : ∀ path size, (path, size) ∈ found.files → Regular events path size
  real : ∀ path target, (path, target) ∈ found.real → Answered events (.canonicalize path) (.ok target)
  resolved : ∀ path, found.resolved = some path → Answered events (.canonicalize job.inputPath) (.ok path)

/-- The passphrase was given, once the input was checked. -/
structure Unlocked.Known (key : Unlocked) : Prop where
  checked : Checked events job key.resolved
  passphrase : Answered events (.readPassphrase job.passphraseFile) (.ok key.passphrase)

/-- The key is that of the passphrase given and of the salt read from the opened file. -/
def KeyRead (decryptor : PageDecryptor) : Prop :=
  ∃ passphrase salt, ∃ first : (Call.readExactAt 0 (List.replicate databaseSaltSize 0)).Reply,
    Answered events (.readPassphrase job.passphraseFile) (.ok passphrase) ∧
    Answered events (.readExactAt 0 (List.replicate databaseSaltSize 0)) first ∧
    first.1 = ⟨.ok (), salt.toList⟩ ∧ decryptor = ⟨config, .derive C config passphrase salt⟩

/-- Page 1 was read from the opened file, which is this long, and authenticates under the key of the passphrase given
and of its own salt. -/
def FirstPageRead (passphrase : Bytes) (size : Nat) (salt : Block) : Prop :=
  Answered events (.readPassphrase job.passphraseFile) (.ok passphrase) ∧ Answered events .fileLen (.ok size) ∧
    ∃ first : (Call.readExactAt 0 (List.replicate config.pageSize 0)).Reply,
      Answered events (.readExactAt 0 (List.replicate config.pageSize 0)) first ∧ first.1.result = .ok () ∧
      first.1.buffer.take 16 = salt.toList ∧
      ∃ plain, PageDecryptor.openPage C ⟨config, .derive C config passphrase salt⟩ .min first.1.buffer = .ok plain

/-- The engine was opened with the codec of the file whose page 1 authenticated. -/
def CodecGiven (codec : SqlCipherCodec) : Prop :=
  ∃ passphrase size salt walPages resolved, FirstPageRead events C config job passphrase size salt ∧
    Answered events (.openDatabase resolved codec) (.ok ()) ∧
    codec = (codecOf C resolved config passphrase (some walPages) size salt).1

/-- Page `k`, counted from 0, was read from the opened file and authenticated at its own number. -/
def FileProvides (k : Nat) (page : Bytes) : Prop :=
  ∃ decryptor, KeyRead events C config job decryptor ∧
    ∃ pageNo : NonZeroU32, pageNo.get = k + 1 ∧
    ∃ read : (Call.readExactAt (k * config.pageSize) (List.replicate config.pageSize 0)).Reply,
      Answered events (.readExactAt (k * config.pageSize) (List.replicate config.pageSize 0)) read ∧
      read.1.result = .ok () ∧ decryptor.openPage C pageNo read.1.buffer = .ok page

/-- Page `k`, counted from 0, is the engine's, given the codec; page 1 with its journal modes set. -/
def EngineProvides (k : Nat) (page : Bytes) : Prop :=
  (∃ codec, CodecGiven events C config job codec) ∧ ∃ bytes, Answered events (.readPage (k + 1)) (.ok bytes) ∧
    bytes.length = config.pageSize ∧ page = if k = 0 then standalone bytes else bytes

/-- Where page `k` comes from. -/
def Provides (k : Nat) (page : Bytes) : Prop :=
  if job.wal then EngineProvides events C config job k page else FileProvides events C config job k page

/-- How many pages there are: those of the opened file, or those the engine counts. -/
def Counted (count : Nat) : Prop :=
  if job.wal then ∃ number : Int, Answered events .pageCount (.ok number) ∧ number = count
  else ∃ size, Answered events .fileLen (.ok size) ∧ config.pageSize ∣ size ∧ size / config.pageSize = count

/-! ## What becomes of the destination -/

/-- Created, and these pages written. -/
def filled (path : Path) (pages : List Bytes) : List Effect :=
  .create path true :: pages.map (.write · true)

theorem sync_notMem_filled (path : Path) (pages : List Bytes) (done : Bool) : .sync done ∉ filled path pages := by
  simp [filled]

/-- The operation that failed after `written` of the pages, if it is one on the destination. -/
def Failure (pages : List Bytes) (written : Nat) (failed : List Effect) : Prop :=
  failed = [] ∨ (∃ page, pages[written]? = some page ∧ failed = [.write page false]) ∨
    written = pages.length ∧ failed = [.sync false]

/-- What a run may do: nothing, fail to create, fill and sync, or fill as far as it came and remove. -/
inductive Trail (path : Path) (pages : List Bytes) : List Effect → Prop
  | untouched : Trail path pages []
  | refused : Trail path pages [.create path false]
  | kept : Trail path pages (filled path pages ++ [.sync true])
  | removed (written : Nat) (failed : List Effect) (done : Bool) : Failure pages written failed →
      Trail path pages (filled path (pages.take written) ++ failed ++ [.remove path done])

/-- What a run has done to the destination when it is among the pages. -/
def Doing (path : Path) (pages : List Bytes) (written : Nat) (intact : Bool) (effects : List Effect) : Destination → Prop
  | .untouched => effects = [] ∨ intact = false ∧ effects = [.create path false]
  | .created => ∃ failed, Failure pages written failed ∧ (intact = true → failed = []) ∧
      effects = filled path (pages.take written) ++ failed
  | .synced => effects = filled path pages ++ [.sync true]
  | .removed => ∃ failed done, Failure pages written failed ∧
      effects = filled path (pages.take written) ++ failed ++ [.remove path done]

/-- The key was read, or the codec given. -/
def Origin.Known : Origin → Prop
  | .file decryptor => job.wal = false ∧ KeyRead events C config job decryptor
  | .engine => job.wal = true ∧ ∃ codec, CodecGiven events C config job codec

structure Paging.Known (paging : Paging) : Prop where
  origin : paging.origin.Known events C config job
  count : Counted events config job paging.count
  pages : ∀ k page, paging.pages[k]? = some page → Provides events C config job k page
  bounded : paging.written ≤ paging.pages.length
  begun : paging.begun = true → job.wal = true
  unwanted : job.output = none → effects events = [] ∧ paging.destination = .untouched
  doing : ∀ path, job.output = some path →
    Doing path paging.pages paging.written paging.intact (effects events) paging.destination
  synced : paging.destination = .synced → paging.pages.length = paging.count
  reported : paging.reported = true → paging.pages.length = paging.count ∧
    (job.output ≠ none → paging.destination = .synced)

/-- What has to be known before a call, by what was answered before it. -/
def Due : Call → Prop
  | .symlinkMetadata _ | .metadata _ | .canonicalize _ => True
  | .readPassphrase file =>
    file = job.passphraseFile ∧ (∀ event ∈ events, event.1.Looks) ∧ ∃ resolved, Checked events job resolved
  | .openFile path => Checked events job path ∧
      ∃ passphrase, Answered events (.readPassphrase job.passphraseFile) (.ok passphrase)
  | .openDatabase path codec => Checked events job path ∧ ∃ passphrase size salt walPages,
      FirstPageRead events C config job passphrase size salt ∧
      codec = (codecOf C path config passphrase (some walPages) size salt).1
  | .createNew path => job.output = some path ∧ effects events = [] ∧
      ((∃ decryptor, KeyRead events C config job decryptor) ∨ ∃ codec, CodecGiven events C config job codec)
  | .print line => ∃ pages : List Bytes, (∀ k page, pages[k]? = some page → Provides events C config job k page) ∧
      Counted events config job pages.length ∧ line = job.report pages.length ∧
      ∀ path, job.output = some path → effects events = filled path pages ++ [.sync true]
  | _ => ∃ passphrase, Answered events (.readPassphrase job.passphraseFile) (.ok passphrase)

/-- What a run knows where it is. -/
def Phase.Known : Phase → Prop
  | .looking found => found.Known events job ∧ ∀ event ∈ events, event.1.Looks
  | .unlocked key | .opened key => key.Known events job ∧ effects events = []
  | .sized key size => key.Known events job ∧ Answered events .fileLen (.ok size) ∧ effects events = []
  | .authenticated key size salt | .platform key size salt =>
    key.Known events job ∧ FirstPageRead events C config job key.passphrase size salt ∧ effects events = [] ∧ job.wal = true
  | .registered codec | .connected codec | .begun codec =>
    CodecGiven events C config job codec ∧ effects events = [] ∧ job.wal = true
  | .pages paging => paging.Known events C config job
  | .refused | .closed => effects events = []

end Knowledge

/-! ## More events -/

section More

variable {events : List (Event Host)} {C : Primitives} {config : CipherConfig} {job : Job} (event : Event Host)

theorem Vacant.more {path : Path} (h : Vacant events path) : Vacant (events ++ [event]) path := by
  obtain ⟨e, he, hkind⟩ := h
  exact ⟨e, he.more event, hkind⟩

theorem Regular.more {path : Path} {size : Nat} (h : Regular events path size) : Regular (events ++ [event]) path size := by
  obtain ⟨metadata, hmetadata, hfile⟩ := h
  exact ⟨metadata, hmetadata.more event, hfile⟩

theorem Checked.more {resolved : Path} (h : Checked events job resolved) : Checked (events ++ [event]) job resolved where
  real := h.real.more event
  journal base hbase := (h.journal base hbase).more event
  alone hwal base hbase := (h.alone hwal base hbase).more event
  pair hwal := by
    obtain ⟨hutf8, hmain, hwalFile, hsame⟩ := h.pair hwal
    refine ⟨hutf8, hmain.imp fun _ h => h.more event, hwalFile.imp fun _ h => h.more event, ?_⟩
    exact hsame.imp (fun h => h.more event) fun ⟨path, hgiven, hown⟩ => ⟨path, hgiven.more event, hown.more event⟩

theorem Findings.Known.more {found : Findings} (h : found.Known events job) : found.Known (events ++ [event]) job where
  vacant path hpath := (h.vacant path hpath).more event
  files path size hfile := (h.files path size hfile).more event
  real path target hreal := (h.real path target hreal).more event
  resolved path hpath := (h.resolved path hpath).more event

theorem Unlocked.Known.more {key : Unlocked} (h : key.Known events job) : key.Known (events ++ [event]) job :=
  ⟨h.checked.more event, h.passphrase.more event⟩

theorem KeyRead.more {decryptor : PageDecryptor} (h : KeyRead events C config job decryptor) :
    KeyRead (events ++ [event]) C config job decryptor := by
  obtain ⟨passphrase, salt, first, hpassphrase, hfirst, h⟩ := h
  exact ⟨passphrase, salt, first, hpassphrase.more event, hfirst.more event, h⟩

theorem FirstPageRead.more {passphrase : Bytes} {size : Nat} {salt : Block}
    (h : FirstPageRead events C config job passphrase size salt) :
    FirstPageRead (events ++ [event]) C config job passphrase size salt := by
  obtain ⟨hpassphrase, hsize, first, hfirst, h⟩ := h
  exact ⟨hpassphrase.more event, hsize.more event, first, hfirst.more event, h⟩

theorem CodecGiven.more {codec : SqlCipherCodec} (h : CodecGiven events C config job codec) :
    CodecGiven (events ++ [event]) C config job codec := by
  obtain ⟨passphrase, size, salt, walPages, resolved, hpage, hopened, h⟩ := h
  exact ⟨passphrase, size, salt, walPages, resolved, hpage.more event, hopened.more event, h⟩

theorem Provides.more {k : Nat} {page : Bytes} (h : Provides events C config job k page) :
    Provides (events ++ [event]) C config job k page := by
  unfold Provides at h ⊢
  by_cases hwal : job.wal = true
  · rw [if_pos hwal] at h ⊢
    obtain ⟨⟨codec, hcodec⟩, bytes, hbytes, h⟩ := h
    exact ⟨⟨codec, hcodec.more event⟩, bytes, hbytes.more event, h⟩
  · rw [if_neg hwal] at h ⊢
    obtain ⟨decryptor, hkey, pageNo, hpageNo, read, hread, h⟩ := h
    exact ⟨decryptor, hkey.more event, pageNo, hpageNo, read, hread.more event, h⟩

theorem Counted.more {count : Nat} (h : Counted events config job count) : Counted (events ++ [event]) config job count := by
  unfold Counted at h ⊢
  by_cases hwal : job.wal = true
  · rw [if_pos hwal] at h ⊢
    obtain ⟨number, hnumber, h⟩ := h
    exact ⟨number, hnumber.more event, h⟩
  · rw [if_neg hwal] at h ⊢
    obtain ⟨size, hsize, h⟩ := h
    exact ⟨size, hsize.more event, h⟩

/-- Looking has no effect. -/
theorem effects_of_looks (h : ∀ event ∈ events, event.1.Looks) : effects events = [] := by
  unfold effects
  rw [List.filterMap_eq_nil_iff]
  rintro ⟨call, reply⟩ hmem
  have hlooks := h _ hmem
  cases call <;> first | rfl | exact hlooks.elim

end More

/-! ## One call -/

section Step

variable {events : List (Event Host)} {C : Primitives} {config : CipherConfig} {job : Job}

theorem Findings.Known.checked {found : Findings} (h : found.Known events job) {resolved : Path}
    (hready : found.Ready job resolved) : Checked events job resolved where
  real := h.resolved resolved hready.real
  journal base hbase := h.vacant _ (hready.journal base hbase)
  alone hwal base hbase := h.vacant _ (hready.alone hwal base hbase)
  pair hwal := by
    obtain ⟨hutf8, ⟨size, hsize⟩, ⟨walSize, hwalSize⟩, hsame⟩ := hready.pair hwal
    refine ⟨hutf8, ⟨size, h.files _ _ hsize⟩, ⟨walSize, h.files _ _ hwalSize⟩, ?_⟩
    exact hsame.imp (h.vacant _) fun ⟨path, hgiven, hown⟩ => ⟨path, h.real _ _ hgiven, h.real _ _ hown⟩

theorem Findings.known_next {found : Findings} {call : Call} {reply : call.Reply} (hfound : found.Known events job)
    (hlooks : ∀ event ∈ events, event.1.Looks) (hallows : found.allows job call) :
    (found.next job call reply).Known (events ++ [⟨call, reply⟩]) C config job := by
  have hmore := hfound.more ⟨call, reply⟩
  have hlooks' : call.Looks → ∀ event ∈ events ++ [⟨call, reply⟩], event.1.Looks := by
    intro hcall event hmem
    rcases List.mem_append.1 hmem with hmem | hmem
    · exact hlooks event hmem
    · rw [List.mem_singleton.1 hmem]
      exact hcall
  have hclosed : call.Looks → Phase.closed.Known (events ++ [⟨call, reply⟩]) C config job :=
    fun hcall => effects_of_looks (hlooks' hcall)
  cases call with
  | symlinkMetadata path =>
    rcases reply with e | metadata
    · simp only [Findings.next]
      split
      · rename_i hkind
        refine ⟨⟨fun path' hpath => ?_, hmore.files, hmore.real, hmore.resolved⟩, hlooks' trivial⟩
        rcases List.mem_cons.1 hpath with rfl | hpath
        · exact ⟨e, answered_last, hkind⟩
        · exact hmore.vacant path' hpath
      · exact hclosed trivial
    · simp only [Findings.next]
      split
      · exact ⟨hmore, hlooks' trivial⟩
      · exact hclosed trivial
  | metadata path =>
    rcases reply with e | metadata
    · exact hclosed trivial
    · simp only [Findings.next]
      split
      · rename_i hfile
        refine ⟨⟨hmore.vacant, fun path' size hmem => ?_, hmore.real, hmore.resolved⟩, hlooks' trivial⟩
        rcases List.mem_cons.1 hmem with heq | hmem
        · cases heq
          exact ⟨metadata, answered_last, hfile, rfl⟩
        · exact hmore.files path' size hmem
      · exact hclosed trivial
  | canonicalize path =>
    rcases reply with e | real
    · exact hclosed trivial
    · refine ⟨⟨hmore.vacant, hmore.files, fun path' target hmem => ?_, fun path' hpath => ?_⟩, hlooks' trivial⟩
      · rcases List.mem_cons.1 hmem with heq | hmem
        · cases heq
          exact answered_last
        · exact hmore.real path' target hmem
      -- the first answer for the input stays
      rcases hallows with ⟨hnone, rfl⟩ | ⟨-, resolved, hsome, -⟩
      · simp only [hnone, Option.orElse_none, Option.some.injEq] at hpath
        subst hpath
        exact answered_last
      · simp only [hsome, Option.orElse_some] at hpath
        exact hmore.resolved path' (hsome.trans hpath)
  | readPassphrase file =>
    obtain ⟨rfl, resolved, hready⟩ := hallows
    have hquiet : effects (events ++ [⟨.readPassphrase job.passphraseFile, reply⟩]) = [] := by
      rw [effects_append, effects_of_looks hlooks]
      rfl
    rcases reply with e | passphrase
    · exact hquiet
    · simp only [Findings.next, hready.real, Option.elim_some]
      exact ⟨⟨hmore.checked hready, answered_last⟩, hquiet⟩
  | _ => exact hallows.elim

/-- What comes of the first read: the key of a main-only reader, or a page 1 that authenticates. -/
theorem Unlocked.known_firstRead {key : Unlocked} {size offset : Nat} {output : Bytes}
    {reply : (Call.readExactAt offset output).Reply} (hkey : key.Known events job) (hsize : Answered events .fileLen (.ok size))
    (hquiet : effects events = []) (hallows : FirstRead config job size offset output) :
    (key.firstRead C config job size reply.1).Known (events ++ [⟨.readExactAt offset output, reply⟩]) C config job := by
  have hquiet' : effects (events ++ [⟨.readExactAt offset output, reply⟩]) = [] := by
    rw [effects_append, hquiet]
    rfl
  obtain ⟨hpos, hdvd, hlt, rfl, houtput⟩ := hallows
  unfold Unlocked.firstRead
  split
  case h_2 => exact hquiet'
  rename_i salt hresult hsalt
  -- the salt is the start of what was read
  have hbytes : reply.1.buffer.take 16 = salt.toList := by
    unfold Arr.ofList at hsalt
    split at hsalt
    · cases hsalt
      rfl
    · cases hsalt
  dsimp only
  by_cases hwal : job.wal = true
  · rw [if_pos hwal] at houtput ⊢
    subst houtput
    split
    case h_2 => exact hquiet'
    rename_i plain hplain
    exact ⟨hkey.more _, ⟨(hkey.more _).passphrase, hsize.more _, reply, answered_last, hresult, hbytes, plain, hplain⟩,
      hquiet', hwal⟩
  · rw [if_neg hwal] at houtput ⊢
    subst houtput
    split
    · exact hquiet'
    -- without `--wal` the salt is all that was read
    have hbuffer : reply.1.buffer = salt.toList := by
      rw [← hbytes, List.take_of_length_le]
      rw [reply.2, List.length_replicate]
      exact le_rfl
    have hfirst : reply.1 = ⟨.ok (), salt.toList⟩ := by
      rw [← hresult, ← hbuffer]
    have hcounted : Counted (events ++ [⟨.readExactAt 0 (List.replicate databaseSaltSize 0), reply⟩]) config job
        (size / config.pageSize) := by
      unfold Counted
      rw [if_neg hwal]
      exact ⟨size, hsize.more _, hdvd, rfl⟩
    exact {
      origin := ⟨Bool.eq_false_of_not_eq_true hwal, key.passphrase, salt, reply, (hkey.more _).passphrase, answered_last,
        hfirst, rfl⟩
      count := hcounted
      pages := by simp [Paging.start]
      bounded := le_rfl
      begun := by simp [Paging.start]
      unwanted := fun _ => ⟨hquiet', rfl⟩
      doing := fun _ _ => .inl hquiet'
      synced := by simp [Paging.start]
      reported := by simp [Paging.start] }

theorem Origin.Known.more {origin : Origin} (h : origin.Known events C config job) (event : Event Host) :
    origin.Known (events ++ [event]) C config job := by
  cases origin with
  | file decryptor => exact ⟨h.1, h.2.more event⟩
  | engine => exact ⟨h.1, h.2.imp fun _ h => h.more event⟩

theorem Doing.fail {path : Path} {pages : List Bytes} {written : Nat} {intact : Bool} {effects : List Effect}
    {destination : Destination} (h : Doing path pages written intact effects destination) :
    Doing path pages written false effects destination := by
  cases destination with
  | untouched => exact Or.imp_right (fun h => ⟨rfl, h.2⟩) h
  | created =>
    obtain ⟨failed, hfailed, -, h⟩ := h
    exact ⟨failed, hfailed, by simp, h⟩
  | synced => exact h
  | removed => exact h

namespace Paging

variable {paging : Paging}

/-- A call without an effect leaves what is known. -/
theorem Known.quiet (h : paging.Known events C config job) {event : Event Host} (hnone : effect event = none) :
    paging.Known (events ++ [event]) C config job where
  origin := h.origin.more event
  count := h.count.more event
  pages k page hpage := (h.pages k page hpage).more event
  bounded := h.bounded
  begun := h.begun
  unwanted houtput := by simpa [hnone] using h.unwanted houtput
  doing path houtput := by simpa [hnone] using h.doing path houtput
  synced := h.synced
  reported := h.reported

theorem Known.fail (h : paging.Known events C config job) : { paging with intact := false }.Known events C config job :=
  { h with doing := fun path houtput => (h.doing path houtput).fail }

/-- One more page, not yet written. -/
theorem Known.grow (h : paging.Known events C config job) (hclear : paging.Clear job) {page : Bytes}
    (hunreported : paging.pages.length ≠ paging.count)
    (hpage : Provides events C config job paging.pages.length page) :
    { paging with pages := paging.pages ++ [page] }.Known events C config job where
  origin := h.origin
  count := h.count
  pages k page' hk := by
    rw [List.getElem?_append] at hk
    split at hk
    · exact h.pages k page' hk
    · rename_i hge
      rw [List.getElem?_singleton] at hk
      split at hk
      · obtain rfl : k = paging.pages.length := by omega
        cases hk
        exact hpage
      · cases hk
  bounded := by
    have := h.bounded
    simp only [List.length_append, List.length_singleton]
    omega
  begun := h.begun
  unwanted := h.unwanted
  doing path houtput := by
    have hdoing := h.doing path houtput
    unfold Clear at hclear
    rw [houtput] at hclear
    obtain ⟨hintact, hcreated, hwritten⟩ := hclear
    rw [hcreated] at hdoing
    show Doing _ _ _ _ _ paging.destination
    rw [hcreated]
    obtain ⟨failed, -, hnone, heffects⟩ := hdoing
    obtain rfl := hnone hintact
    exact ⟨[], .inl rfl, fun _ => rfl, by rw [List.take_append_of_le_length hwritten.le]; exact heffects⟩
  synced hsynced := absurd (h.synced hsynced) hunreported
  reported hreported := absurd (h.reported hreported).1 hunreported

/-- A page that may not have been read. -/
theorem Known.turned (h : paging.Known events C config job) (hclear : paging.Clear job) {page : Option Bytes}
    (hunreported : paging.pages.length ≠ paging.count)
    (hpage : ∀ bytes, page = some bytes → Provides events C config job paging.pages.length bytes) :
    (paging.turned page).Known events C config job := by
  rcases page with _ | page
  · exact h.fail
  · exact h.grow hclear hunreported (hpage page rfl)

theorem number_of_new {n : Nat} {pageNo : NonZeroU32} (h : NonZeroU32.new n = some pageNo) : pageNo.get = n := by
  unfold NonZeroU32.new at h
  split at h
  · cases h
    rfl
  · cases h

/-- A page read for its place, under the key. -/
theorem Known.provides_opened (h : paging.Known events C config job) (hwal : job.wal = false)
    {read : (Call.readExactAt (paging.pages.length * config.pageSize) (List.replicate config.pageSize 0)).Reply}
    (hread : Answered events (.readExactAt (paging.pages.length * config.pageSize) (List.replicate config.pageSize 0)) read)
    (hok : read.1.result = .ok ()) {page : Bytes} (hpage : paging.opened C read.1.buffer = some page) :
    Provides events C config job paging.pages.length page := by
  have horigin := h.origin
  unfold Paging.opened at hpage
  rcases hkind : paging.origin with decryptor | _
  · rw [hkind] at hpage horigin
    rcases hnew : NonZeroU32.new (paging.pages.length + 1) with _ | pageNo
    · rw [hnew] at hpage
      cases hpage
    rw [hnew] at hpage
    have hplain : decryptor.openPage C pageNo read.1.buffer = .ok page := by
      rcases hopen : decryptor.openPage C pageNo read.1.buffer with e | plain
      · simp [hopen, Except.toOption] at hpage
      · simpa [hopen, Except.toOption] using hpage
    unfold Provides
    rw [if_neg (by simp [hwal])]
    exact ⟨decryptor, horigin.2, pageNo, number_of_new hnew, read, hread, hok, hplain⟩
  · rw [hkind] at horigin
    exact absurd horigin.1 (by simp [hwal])

/-- A page the engine read. -/
theorem Known.provides_selected (h : paging.Known events C config job) (hwal : job.wal = true) {bytes page : Bytes}
    (hread : Answered events (.readPage (paging.pages.length + 1)) (.ok bytes)) (hpage : paging.selected config bytes = some page) :
    Provides events C config job paging.pages.length page := by
  have horigin := h.origin
  rcases hkind : paging.origin with decryptor | _
  · rw [hkind] at horigin
    exact absurd horigin.1 (by simp [hwal])
  rw [hkind] at horigin
  unfold Paging.selected at hpage
  split at hpage
  case isFalse => cases hpage
  rename_i hlen
  unfold Provides
  rw [if_pos hwal]
  refine ⟨horigin.2, bytes, hread, hlen, ?_⟩
  rw [← Option.some.inj hpage]
  simp

theorem Known.wanted (h : paging.Known events C config job) (htouched : paging.destination ≠ .untouched) :
    ∃ path, job.output = some path := by
  rcases houtput : job.output with _ | path
  · exact absurd (h.unwanted houtput).2 htouched
  · exact ⟨path, rfl⟩

/-- Something done to the destination. -/
theorem Known.act (h : paging.Known events C config job) {path : Path} (houtput : job.output = some path)
    (hunsynced : paging.destination ≠ .synced) (event : Event Host) {written : Nat} {intact : Bool} {destination : Destination}
    (hbounded : written ≤ paging.pages.length) (hall : destination = .synced → paging.pages.length = paging.count)
    (hdoing : Doing path paging.pages written intact (effects (events ++ [event])) destination) :
    { paging with written := written, intact := intact, destination := destination }.Known (events ++ [event]) C config job where
  origin := h.origin.more event
  count := h.count.more event
  pages k page hpage := (h.pages k page hpage).more event
  bounded := hbounded
  begun := h.begun
  unwanted hnone := by simp [houtput] at hnone
  doing path' houtput' := by
    rw [houtput] at houtput'
    cases houtput'
    exact hdoing
  synced := hall
  reported hreported := absurd ((h.reported hreported).2 (by simp [houtput])) hunsynced

/-- Nothing has failed, so what was done is what the pages written say. -/
theorem Known.filled_of_intact (h : paging.Known events C config job) {path : Path} (houtput : job.output = some path)
    (hintact : paging.intact = true) (hcreated : paging.destination = .created) :
    effects events = filled path (paging.pages.take paging.written) := by
  have hdoing := h.doing path houtput
  rw [hcreated] at hdoing
  obtain ⟨failed, -, hnone, heffects⟩ := hdoing
  rw [heffects, hnone hintact, List.append_nil]

theorem known_next (h : paging.Known events C config job) {call : Call} {reply : call.Reply}
    (hallows : paging.allows config job call) :
    (paging.next C config call reply).Known (events ++ [⟨call, reply⟩]) C config job := by
  have hquiet : effect ⟨call, reply⟩ = none → paging.Known (events ++ [⟨call, reply⟩]) C config job := h.quiet
  cases call with
  | readExactAt offset output =>
    obtain ⟨hclear, hwal, hlt, rfl, rfl⟩ := hallows
    simp only [Paging.next]
    split
    · rename_i hresult
      refine (hquiet rfl).turned hclear hlt.ne fun page hpage => ?_
      exact (hquiet rfl).provides_opened hwal answered_last hresult hpage
    · exact (hquiet rfl).fail
  | readPage number =>
    obtain ⟨hclear, hbegun, hlt, rfl⟩ := hallows
    rcases reply with e | bytes
    · exact (hquiet rfl).fail
    · refine (hquiet rfl).turned hclear hlt.ne fun page hpage => ?_
      exact (hquiet rfl).provides_selected (h.begun hbegun) answered_last hpage
  | rollback => exact { hquiet rfl with begun := by simp [Paging.next] }
  | createNew path =>
    obtain ⟨houtput, hintact, huntouched, hpages⟩ := hallows
    have hdoing := h.doing path houtput
    rw [huntouched] at hdoing
    -- creating comes first
    have hnothing : effects events = [] := by
      rcases hdoing with hnothing | ⟨hfailed, -⟩
      · exact hnothing
      · simp [hintact] at hfailed
    rcases reply with e | _
    · refine h.act houtput (by simp [huntouched]) _ h.bounded (by simp [huntouched]) ?_
      rw [huntouched]
      exact .inr ⟨rfl, by simp [hnothing, effect, Except.isOk, Except.toBool]⟩
    · refine h.act houtput (by simp [huntouched]) _ h.bounded (by simp) ⟨[], .inl rfl, fun _ => rfl, ?_⟩
      simp [hnothing, effect, Except.isOk, Except.toBool, filled, hpages]
  | writeAll bytes =>
    obtain ⟨hintact, hcreated, hlen, hlast⟩ := hallows
    obtain ⟨path, houtput⟩ := h.wanted (by simp [hcreated])
    have heffects := h.filled_of_intact houtput hintact hcreated
    -- the page being written is the last one read
    have hnext : paging.pages[paging.written]? = some bytes := by
      rw [← hlast, List.getLast?_eq_getElem?, hlen, Nat.add_sub_cancel]
    rcases reply with e | _
    · refine h.act houtput (by simp [hcreated]) _ h.bounded (by simp [hcreated]) ?_
      rw [hcreated]
      exact ⟨_, .inr (.inl ⟨bytes, hnext, rfl⟩), by simp, by simp [heffects, effect, Except.isOk, Except.toBool]⟩
    · refine h.act houtput (by simp [hcreated]) _ (by omega) (by simp [hcreated]) ?_
      rw [hcreated]
      refine ⟨[], .inl rfl, fun _ => rfl, ?_⟩
      have htake : paging.pages.take (paging.written + 1) = paging.pages.take paging.written ++ [bytes] := by
        rw [List.take_add_one, hnext]
        rfl
      rw [htake]
      simp [heffects, effect, Except.isOk, Except.toBool, filled]
  | syncAll =>
    obtain ⟨hclear, hcreated, hbegun, hall⟩ := hallows
    obtain ⟨path, houtput⟩ := h.wanted (by simp [hcreated])
    unfold Clear at hclear
    rw [houtput] at hclear
    obtain ⟨hintact, -, hwritten⟩ := hclear
    have heffects := h.filled_of_intact houtput hintact hcreated
    rw [hwritten, List.take_length] at heffects
    rcases reply with e | _
    · refine h.act houtput (by simp [hcreated]) _ h.bounded (by simp [hcreated]) ?_
      rw [hcreated]
      exact ⟨_, .inr (.inr ⟨hwritten, rfl⟩), by simp,
        by simp [heffects, hwritten, effect, Except.isOk, Except.toBool]⟩
    · refine h.act houtput (by simp [hcreated]) _ h.bounded (fun _ => hall) ?_
      show effects _ = _
      simp [heffects, effect, Except.isOk, Except.toBool]
  | removeFile path =>
    obtain ⟨houtput, hintact, hcreated, hbegun⟩ := hallows
    have hdoing := h.doing path houtput
    rw [hcreated] at hdoing
    -- whatever failed stays in the trail before the removal
    obtain ⟨failed, hfailed, -, heffects⟩ := hdoing
    refine h.act houtput (by simp [hcreated]) _ h.bounded (by simp) ⟨failed, Except.isOk (reply : Except IoError Unit), hfailed, ?_⟩
    rw [effects_append, heffects]
    rfl
  | print line =>
    obtain ⟨hintact, hbegun, hreported, hdestination, hall, rfl⟩ := hallows
    rcases reply with e | _
    · exact (hquiet rfl).fail
    · exact { hquiet rfl with reported := fun _ => ⟨hall, fun houtput => by simp [Paging.next, hdestination, houtput]⟩ }
  | _ => exact hallows.elim

end Paging

theorem effects_quiet (event : Event Host) (h : effects events = []) (hnone : effect event = none) :
    effects (events ++ [event]) = [] := by
  simp [h, hnone]

/-- What is known after an allowed call. -/
theorem Phase.known_next {phase : Phase} (h : phase.Known events C config job) {call : Call} {reply : call.Reply}
    (hallows : phase.allows C config job call) :
    (phase.next C config job call reply).Known (events ++ [⟨call, reply⟩]) C config job := by
  cases phase with
  | looking found => exact Findings.known_next h.1 h.2 hallows
  | unlocked key =>
    cases call with
    | openFile path =>
      have hquiet := effects_quiet ⟨.openFile path, reply⟩ h.2 rfl
      rcases reply with e | _
      · exact hquiet
      · exact ⟨h.1.more _, hquiet⟩
    | _ => exact hallows.elim
  | opened key =>
    cases call with
    | fileLen =>
      have hquiet := effects_quiet ⟨.fileLen, reply⟩ h.2 rfl
      rcases reply with e | size
      · exact hquiet
      · exact ⟨h.1.more _, answered_last, hquiet⟩
    | _ => exact hallows.elim
  | sized key size =>
    cases call with
    | readExactAt offset output => exact Unlocked.known_firstRead h.1 h.2.1 h.2.2 hallows
    | _ => exact hallows.elim
  | authenticated key size salt =>
    cases call with
    | platformIo =>
      have hquiet := effects_quiet ⟨.platformIo, reply⟩ h.2.2.1 rfl
      rcases reply with e | _
      · exact hquiet
      · exact ⟨h.1.more _, h.2.1.more _, hquiet, h.2.2.2⟩
    | _ => exact hallows.elim
  | platform key size salt =>
    cases call with
    | openDatabase path codec =>
      have hquiet := effects_quiet ⟨.openDatabase path codec, reply⟩ h.2.2.1 rfl
      rcases reply with e | _
      · exact hquiet
      · obtain ⟨rfl, walSize, -, hcodec⟩ := hallows
        exact ⟨⟨_, size, salt, _, key.resolved, h.2.1.more _, answered_last, hcodec⟩, hquiet, h.2.2.2⟩
    | _ => exact hallows.elim
  | registered codec =>
    cases call with
    | connect codec' =>
      have hquiet := effects_quiet ⟨.connect codec', reply⟩ h.2.1 rfl
      rcases reply with e | _
      · exact hquiet
      · exact ⟨h.1.more _, hquiet, h.2.2⟩
    | _ => exact hallows.elim
  | connected codec =>
    cases call with
    | beginRead =>
      have hquiet := effects_quiet ⟨.beginRead, reply⟩ h.2.1 rfl
      rcases reply with e | _
      · exact hquiet
      · exact ⟨h.1.more _, hquiet, h.2.2⟩
    | _ => exact hallows.elim
  | begun codec =>
    cases call with
    | pageCount =>
      have hquiet := effects_quiet ⟨.pageCount, reply⟩ h.2.1 rfl
      rcases reply with e | count
      · exact hquiet
      simp only [Phase.next]
      split
      case isFalse => exact hquiet
      rename_i hcount
      -- the first page is still to come
      have hcounted : Counted (events ++ [⟨.pageCount, .ok count⟩]) config job count.toNat := by
        unfold Counted
        rw [if_pos h.2.2]
        exact ⟨count, answered_last, by omega⟩
      exact {
        origin := ⟨h.2.2, codec, h.1.more _⟩
        count := hcounted
        pages := by simp [Paging.start]
        bounded := le_rfl
        begun := fun _ => h.2.2
        unwanted := fun _ => ⟨hquiet, rfl⟩
        doing := fun _ _ => .inl hquiet
        synced := by simp [Paging.start]
        reported := by simp [Paging.start] }
    | _ => exact hallows.elim
  | pages paging => exact Paging.known_next h hallows
  | refused => exact hallows.elim
  | closed => exact hallows.elim

/-- What is known after any events of the policy. -/
theorem known_of_obeys (hobeys : (policy C config job).Obeys .start events) :
    ((policy C config job).after .start events).Known events C config job := by
  refine Policy.Obeys.induction (fun events phase => phase.Known events C config job) ?_ ?_ events hobeys
  · exact ⟨⟨by simp, by simp, by simp, by simp⟩, by simp⟩
  · exact fun before phase call reply h hallows => Phase.known_next h hallows

theorem Phase.Known.effects_of_not_pages {phase : Phase} (h : phase.Known events C config job)
    (hnot : ∀ paging, phase ≠ .pages paging) : effects events = [] := by
  cases phase with
  | looking found => exact effects_of_looks h.2
  | unlocked key => exact h.2
  | opened key => exact h.2
  | sized key size => exact h.2.2
  | authenticated key size salt => exact h.2.2.1
  | platform key size salt => exact h.2.2.1
  | registered codec => exact h.2.1
  | connected codec => exact h.2.1
  | begun codec => exact h.2.1
  | pages paging => exact absurd rfl (hnot paging)
  | refused => exact h
  | closed => exact h

theorem CodecGiven.passphrase {codec : SqlCipherCodec} (h : CodecGiven events C config job codec) :
    ∃ passphrase, Answered events (.readPassphrase job.passphraseFile) (.ok passphrase) := by
  obtain ⟨passphrase, size, salt, walPages, resolved, hpage, -⟩ := h
  exact ⟨passphrase, hpage.1⟩

theorem Origin.Known.passphrase {origin : Origin} (h : origin.Known events C config job) :
    ∃ passphrase, Answered events (.readPassphrase job.passphraseFile) (.ok passphrase) := by
  cases origin with
  | file decryptor =>
    obtain ⟨-, passphrase, salt, first, hpassphrase, -⟩ := h
    exact ⟨passphrase, hpassphrase⟩
  | engine =>
    obtain ⟨-, codec, hcodec⟩ := h
    exact hcodec.passphrase

theorem Paging.Known.due {paging : Paging} (h : paging.Known events C config job) {call : Call}
    (hallows : paging.allows config job call) : Due events C config job call := by
  have hgiven := h.origin.passphrase
  cases call with
  | createNew path =>
    obtain ⟨houtput, hintact, huntouched, -⟩ := hallows
    have hdoing := h.doing path houtput
    rw [huntouched] at hdoing
    have horigin := h.origin
    refine ⟨houtput, hdoing.resolve_right fun hfailed => by simp [hintact] at hfailed, ?_⟩
    cases hkind : paging.origin with
    | file decryptor =>
      rw [hkind] at horigin
      exact .inl ⟨decryptor, horigin.2⟩
    | engine =>
      rw [hkind] at horigin
      exact .inr horigin.2
  | print line =>
    obtain ⟨-, -, -, hdestination, hall, rfl⟩ := hallows
    refine ⟨paging.pages, h.pages, by rw [hall]; exact h.count, by rw [hall], fun path houtput => ?_⟩
    have hdoing := h.doing path houtput
    rw [hdestination, if_neg (by simp [houtput])] at hdoing
    exact hdoing
  | readExactAt offset output => exact hgiven
  | readPage number => exact hgiven
  | rollback => exact hgiven
  | writeAll bytes => exact hgiven
  | syncAll => exact hgiven
  | removeFile path => exact hgiven
  | _ => exact hallows.elim

/-- An allowed call is due. -/
theorem Phase.Known.due {phase : Phase} (h : phase.Known events C config job) {call : Call}
    (hallows : phase.allows C config job call) : Due events C config job call := by
  cases phase with
  | looking found =>
    cases call with
    | readPassphrase file =>
      obtain ⟨rfl, resolved, hready⟩ := hallows
      exact ⟨rfl, h.2, resolved, h.1.checked hready⟩
    | symlinkMetadata path => trivial
    | metadata path => trivial
    | canonicalize path => trivial
    | _ => exact hallows.elim
  | unlocked key =>
    cases call with
    | openFile path =>
      obtain ⟨rfl, -⟩ := hallows
      exact ⟨h.1.checked, _, h.1.passphrase⟩
    | _ => exact hallows.elim
  | opened key =>
    cases call with
    | fileLen => exact ⟨_, h.1.passphrase⟩
    | _ => exact hallows.elim
  | sized key size =>
    cases call with
    | readExactAt offset output => exact ⟨_, h.1.passphrase⟩
    | _ => exact hallows.elim
  | authenticated key size salt =>
    cases call with
    | platformIo => exact ⟨_, h.1.passphrase⟩
    | _ => exact hallows.elim
  | platform key size salt =>
    cases call with
    | openDatabase path codec =>
      obtain ⟨rfl, walSize, -, hcodec⟩ := hallows
      exact ⟨h.1.checked, _, size, salt, _, h.2.1, hcodec⟩
    | _ => exact hallows.elim
  | registered codec =>
    cases call with
    | connect codec' => exact h.1.passphrase
    | _ => exact hallows.elim
  | connected codec =>
    cases call with
    | beginRead => exact h.1.passphrase
    | _ => exact hallows.elim
  | begun codec =>
    cases call with
    | pageCount => exact h.1.passphrase
    | _ => exact hallows.elim
  -- from here on the passphrase was given, and the rest is about the pages
  | pages paging => exact Paging.Known.due h hallows
  | refused => exact hallows.elim
  | closed => exact hallows.elim

/-- Where a run stops, what it has done to the destination is one of the trails. -/
theorem Paging.Known.trail {paging : Paging} (h : paging.Known events C config job)
    (hover : paging.destination ≠ .created) {path : Path} (houtput : job.output = some path) :
    Trail path paging.pages (effects events) := by
  have hdoing := h.doing path houtput
  rcases hdestination : paging.destination with _ | _ | _ | _
  · rw [hdestination] at hdoing
    rcases hdoing with heffects | ⟨-, heffects⟩
    · rw [heffects]
      exact .untouched
    · rw [heffects]
      exact .refused
  · exact absurd hdestination hover
  · rw [hdestination] at hdoing
    have heffects : effects events = filled path paging.pages ++ [.sync true] := hdoing
    rw [heffects]
    exact .kept
  · rw [hdestination] at hdoing
    obtain ⟨failed, done, hfailed, heffects⟩ := hdoing
    rw [heffects]
    exact .removed paging.written failed done hfailed

/-- A file that was synced has all the pages. -/
theorem Paging.Known.all_of_sync {paging : Paging} (h : paging.Known events C config job)
    (hover : paging.destination ≠ .created) (hsync : .sync true ∈ effects events) : paging.pages.length = paging.count := by
  rcases houtput : job.output with _ | path
  · rw [(h.unwanted houtput).1] at hsync
    cases hsync
  have hdoing := h.doing path houtput
  rcases hdestination : paging.destination with _ | _ | _ | _
  · rw [hdestination] at hdoing
    rcases hdoing with heffects | ⟨-, heffects⟩
    · simp [heffects] at hsync
    · simp [heffects] at hsync
  · exact absurd hdestination hover
  · exact h.synced hdestination
  · rw [hdestination] at hdoing
    obtain ⟨failed, done, hfailed, heffects⟩ := hdoing
    have hfilled := sync_notMem_filled path (paging.pages.take paging.written) true
    rcases hfailed with rfl | ⟨page, -, rfl⟩ | ⟨-, rfl⟩
    · simp [heffects, hfilled] at hsync
    · simp [heffects, hfilled] at hsync
    · simp [heffects, hfilled] at hsync

end Step

/-! ## Every run -/

section Runs

variable (C : Primitives) (job : Job) {σ : Type} (env : Environment Host σ)

/-- What a run that ended has to show for it. -/
theorem pages_of_run {job : Job} {env : Environment Host σ} {config : CipherConfig} (hconfig : job.cipher.config = .ok config)
    {s s' : σ} {ended : Except CliError Unit} {events : List (Event Host)}
    (hrun : run C env job.command (s, []) = some (ended, (s', events))) : ∃ pages : List Bytes,
      (∀ k page, pages[k]? = some page → Provides events C config job k page) ∧
      (job.output = none → effects events = []) ∧
      (∀ path, job.output = some path → Trail path pages (effects events)) ∧
      (.sync true ∈ effects events → Counted events config job pages.length) ∧
      (ended = .ok () → Counted events config job pages.length ∧
        ∀ path, job.output = some path → effects events = filled path pages ++ [.sync true]) := by
  obtain ⟨ended', s'', events', hrun', hobeys, hend⟩ := job_ensures C config job env hconfig s []
  obtain ⟨rfl, rfl, rfl⟩ : ended' = ended ∧ s'' = s' ∧ events' = events := by
    simpa [hrun] using hrun'.symm
  have hknown := known_of_obeys hobeys
  have hover : ((policy C config job).after .start events').Over := by
    rcases ended' with e | _
    · exact finishes_error.1 hend
    · exact (finishes_ok.1 hend).1
  -- the pages are those of the phase the run ends in, if it got that far
  by_cases hpages : ∃ paging, (policy C config job).after .start events' = .pages paging
  · obtain ⟨paging, hpaging⟩ := hpages
    rw [hpaging] at hknown hover
    refine ⟨paging.pages, hknown.pages, fun houtput => (hknown.unwanted houtput).1,
      fun path houtput => hknown.trail hover.1 houtput, fun hsync => ?_, fun hok => ?_⟩
    · rw [hknown.all_of_sync hover.1 hsync]
      exact hknown.count
    subst hok
    have hdone := (finishes_ok.1 hend).2
    rw [hpaging] at hdone
    obtain ⟨hall, hsynced⟩ := hknown.reported hdone
    refine ⟨by rw [hall]; exact hknown.count, fun path houtput => ?_⟩
    have hdoing := hknown.doing path houtput
    rw [hsynced (by simp [houtput])] at hdoing
    exact hdoing
  · -- it ended before the first page
    have hnothing := hknown.effects_of_not_pages fun paging hpaging => hpages ⟨paging, hpaging⟩
    refine ⟨[], by simp, fun _ => hnothing, fun path _ => by rw [hnothing]; exact .untouched, fun hsync => ?_, fun hok => ?_⟩
    · rw [hnothing] at hsync
      cases hsync
    subst hok
    have hdone := (finishes_ok.1 hend).2
    revert hdone hpages
    generalize (policy C config job).after .start events' = phase
    intro hpages hdone
    cases phase <;> first | exact absurd ⟨_, rfl⟩ hpages | exact hdone.elim

/-- Whatever a run writes out is authenticated: in any environment there are pages, each read in this run for its own
place and authenticated there under the passphrase given in this run (or the engine's, opened with the codec of a
file that authenticates so), and what the run does to the destination is to write those, in order and nothing else,
into a file it created itself, and to keep that file synced or to try to remove it. It ends well only when the pages are
all there are and the file is kept. -/
theorem written_pages_authenticate (s : σ) : ∃ ended s' events,
    run C env job.command (s, []) = some (ended, (s', events)) ∧
    (∀ e, job.cipher.config = .error e → events = []) ∧
    ∀ config, job.cipher.config = .ok config → ∃ pages : List Bytes,
      (∀ k page, pages[k]? = some page → Provides events C config job k page) ∧
      (job.output = none → effects events = []) ∧
      (∀ path, job.output = some path → Trail path pages (effects events)) ∧
      (ended = .ok () → Counted events config job pages.length ∧
        ∀ path, job.output = some path → effects events = filled path pages ++ [.sync true]) := by
  rcases hconfig : job.cipher.config with e | config
  · exact ⟨.error e, s, [], run_of_config_error C job env hconfig _, fun _ _ => rfl, by rintro config ⟨⟩⟩
  obtain ⟨ended, s', events, hrun, -⟩ := job_ensures C config job env hconfig s []
  refine ⟨ended, s', events, hrun, by rintro e ⟨⟩, fun config' h => ?_⟩
  cases h
  obtain ⟨pages, hprovides, hnothing, htrail, -, hok⟩ := pages_of_run C hconfig hrun
  exact ⟨pages, hprovides, hnothing, htrail, hok⟩

end Runs

end Veilite.Cli.Stepwise

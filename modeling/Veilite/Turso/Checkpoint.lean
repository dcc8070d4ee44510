/-
A DB/WAL snapshot against the checkpointed file. The engine serves a page from its frame if it has one and
else from the main file, through the codec `open_connection` built for the main file alone; the file with
the frames applied, read by the core reader, gives the same pages and fails at the same one.
-/
import Veilite.Core.Pages
import Veilite.Turso.Opening

namespace Veilite.Turso

open Buffer Veilite.Core Traverse

/-! ## Commits -/

/-- A commit selected over a main file: its page count and the frame payload of every page that has one. -/
structure Commit (config : CipherConfig) (main : Bytes) (walPages : Option Nat) where
  pageCount : Nat
  frame : Nat → Option Bytes
  pageCount_pos : 0 < pageCount
  pageCount_lt : pageCount < 2 ^ 32
  bounded : pageCount ≤ saturatingAdd 32 (main.length / config.pageSize) (walPages.getD 0)
  length_frame : ∀ {number payload}, frame number = some payload → payload.length = config.pageSize
  covered : ∀ {number}, 0 < number → number ≤ pageCount → frame number = none →
    number ≤ main.length / config.pageSize
  salt : ∀ {payload}, frame 1 = some payload → payload.take 16 = main.take 16
  mainOnly : walPages = none → ∀ number, frame number = none

namespace Commit

variable {config : CipherConfig} {main : Bytes} {walPages : Option Nat} (commit : Commit config main walPages)

/-- The encrypted page the commit selects. -/
def page (pageNo : NonZeroU32) : Bytes := (commit.frame pageNo.get).getD (pageOf config.pageSize main pageNo)

/-- Where the engine finds it. -/
def location (pageNo : NonZeroU32) : PageLocation := if (commit.frame pageNo.get).isSome then .wal else .database

/-- The main file with the commit's frames applied. -/
def checkpoint : Bytes := (pageNumbers commit.pageCount).flatMap commit.page

/-- The engine reads a selected page through `decode_page`, and gives the decoded page or an error. -/
def Serves (C : Primitives) (codec : SqlCipherCodec) (pager : Nat → Except LimboError Bytes) : Prop :=
  ∀ pageNo : NonZeroU32, pageNo.get ≤ commit.pageCount → ∃ output read, output.length = config.pageSize ∧
    codec.decodePage C ⟨commit.location pageNo, pageNo.get⟩ (commit.page pageNo) output = some read ∧
    match read.result with
    | .ok () => pager pageNo.get = .ok read.buffer
    | .error _ => ∃ e, pager pageNo.get = .error e

theorem length_page {pageNo : NonZeroU32} (h : pageNo.get ≤ commit.pageCount) :
    (commit.page pageNo).length = config.pageSize := by
  unfold page
  cases hframe : commit.frame pageNo.get with
  | some payload => exact commit.length_frame hframe
  | none =>
    exact length_pageOf (Nat.mul_le_of_le_div _ _ _ (commit.covered pageNo.pos h hframe))

theorem length_checkpoint : commit.checkpoint.length = commit.pageCount * config.pageSize :=
  length_flatMap_pageNumbers commit.pageCount_lt fun _ h => commit.length_page h

/-- Page `n` of the checkpointed file is the page the commit selects. -/
theorem pageOf_checkpoint {pageNo : NonZeroU32} (h : pageNo.get ≤ commit.pageCount) :
    pageOf config.pageSize commit.checkpoint pageNo = commit.page pageNo :=
  pageOf_flatMap_pageNumbers commit.pageCount_lt (fun _ hp => commit.length_page hp) h

/-- The checkpointed file keeps the salt. -/
theorem take_checkpoint : commit.checkpoint.take 16 = main.take 16 := by
  have hps := config.pageSize_ge
  have hone : NonZeroU32.min.get ≤ commit.pageCount := commit.pageCount_pos
  have hpage := commit.pageOf_checkpoint hone
  have htake : commit.checkpoint.take 16 = (commit.page .min).take 16 := by
    rw [← hpage, pageOf_min, List.take_take, Nat.min_eq_left (by omega)]
  -- page 1 is the main file's, or a frame's that keeps the salt
  rw [htake]
  unfold page
  cases hframe : commit.frame NonZeroU32.min.get with
  | some payload => exact commit.salt hframe
  | none =>
    rw [Option.getD_none, pageOf_min, List.take_take, Nat.min_eq_left (by omega)]

/-- A commit without frames is of the main file itself. -/
theorem checkpoint_eq_main (hnone : ∀ number, commit.frame number = none)
    (hwhole : commit.pageCount * config.pageSize = main.length) : commit.checkpoint = main := by
  have hpage : commit.page = pageOf config.pageSize main := by
    funext pageNo
    unfold page
    rw [hnone, Option.getD_none]
  unfold checkpoint
  rw [hpage, flatMap_pageOf _ _ commit.pageCount_lt, hwhole, List.take_length]

end Commit

/-! ## Agreement -/

/-- A page that does not read on both sides, or one callback error. -/
inductive SameFailure : VisitError → ReaderError IoError ⊕ IoError → Prop
  | page (e : LimboError) (e' : ReaderError IoError) : SameFailure (.read e) (.inl e')
  | callback (e : IoError) : SameFailure (.callback e) (.inr e)

section Agreement

variable {C : Primitives} {fs : FsView} {resolved : Path} {config : CipherConfig} {passphrase : Bytes}
  {main : Bytes} {salt : Block} {walPages : Option Nat}

/-- The codec of the main file passes every page a commit selects on to the decryptor. -/
theorem decoded_commit (commit : Commit config main walPages) {pageNo : NonZeroU32}
    (h : pageNo.get ≤ commit.pageCount) :
    (codecOf C resolved config passphrase walPages main.length salt).1.decoded C
        ⟨commit.location pageNo, pageNo.get⟩ (commit.page pageNo) config.pageSize =
      (PageDecryptor.openPage C ⟨config, .derive C config passphrase salt⟩ pageNo (commit.page pageNo)).mapError
        fun e => .invalidArgument e.toString := by
  have hrange : (codecOf C resolved config passphrase walPages main.length salt).1.inRange
      ⟨commit.location pageNo, pageNo.get⟩ = true := by
    unfold SqlCipherCodec.inRange Commit.location
    rcases hframe : commit.frame pageNo.get with _ | payload
    · exact decide_eq_true (commit.covered pageNo.pos h hframe)
    cases walPages with
    | none =>
      have := commit.mainOnly rfl pageNo.get
      rw [hframe] at this; cases this
    | some frames => exact decide_eq_true (Nat.le_trans h commit.bounded)
  have hlen : (commit.page pageNo).length = config.pageSize := commit.length_page h
  unfold SqlCipherCodec.decoded
  rw [hrange, if_neg (by rintro (hf | hf | hf); exacts [hf rfl, hf hlen, hf hlen.symm]),
    NonZeroU32.new_eq_some pageNo.pos pageNo.lt]
  rfl

/-- An engine that gives the decryptor's verdict on every selected page serves the commit. -/
theorem serves_of_openPage (commit : Commit config main walPages) {pager : Nat → Except LimboError Bytes}
    (h : ∀ pageNo : NonZeroU32, pageNo.get ≤ commit.pageCount →
      match PageDecryptor.openPage C ⟨config, .derive C config passphrase salt⟩ pageNo (commit.page pageNo) with
      | .ok plain => pager pageNo.get = .ok plain
      | .error _ => ∃ e, pager pageNo.get = .error e) :
    commit.Serves C (codecOf C resolved config passphrase walPages main.length salt).1 pager := by
  intro pageNo hle
  refine ⟨List.replicate config.pageSize 0, _, List.length_replicate, SqlCipherCodec.decodePage_eq .., ?_⟩
  have hpage := h pageNo hle
  rw [List.length_replicate, decoded_commit commit hle]
  cases hopen : PageDecryptor.openPage C ⟨config, .derive C config passphrase salt⟩ pageNo (commit.page pageNo) with
  | error e => rw [hopen] at hpage; exact hpage
  | ok plain => rw [hopen] at hpage; exact hpage

/-- A page of a snapshot that serves the commit is the decryptor's verdict on the page the commit selects. -/
theorem selectedPage_of_serves (commit : Commit config main walPages) {snapshot : WalSnapshot}
    (hsize : snapshot.pageSize = config.pageSize)
    (hserves : commit.Serves C (codecOf C resolved config passphrase walPages main.length salt).1 snapshot.connection.pager)
    {pageNo : NonZeroU32} (hle : pageNo.get ≤ commit.pageCount) :
    match PageDecryptor.openPage C ⟨config, .derive C config passphrase salt⟩ pageNo (commit.page pageNo) with
    | .ok plain => snapshot.selectedPage pageNo = .ok plain
    | .error _ => ∃ e, snapshot.selectedPage pageNo = .error (.read e) := by
  obtain ⟨output, read, hout, hdecode, hpager⟩ := hserves pageNo hle
  rw [SqlCipherCodec.decodePage_eq, hout, decoded_commit commit hle, Option.some.injEq] at hdecode
  subst hdecode
  unfold WalSnapshot.selectedPage
  cases hpage : PageDecryptor.openPage C ⟨config, .derive C config passphrase salt⟩ pageNo (commit.page pageNo) with
  | error e =>
    rw [hpage] at hpager
    obtain ⟨e', he'⟩ := hpager
    exact ⟨e', by rw [he']⟩
  | ok plain =>
    rw [hpage] at hpager
    have hplain : plain.length = snapshot.pageSize := (PageDecryptor.length_of_openPage hpage).trans hsize.symm
    have hpager' : snapshot.connection.pager pageNo.get = .ok plain := hpager
    dsimp only
    rw [hpager']
    exact if_neg (not_not.2 hplain)

/-- The traversal of a snapshot that serves a commit against the core reader's of the checkpointed file. -/
theorem visitPages_agree (h : Authenticates C fs resolved config passphrase (FileSource main) main.length salt)
    (commit : Commit config main walPages) {snapshot : WalSnapshot} (hcount : snapshot.pageCount = commit.pageCount)
    (hsize : snapshot.pageSize = config.pageSize)
    (hserves : commit.Serves C (codecOf C resolved config passphrase walPages main.length salt).1 snapshot.connection.pager) :
    ∃ r, SqlCipherReader.open C (FileSource commit.checkpoint) config passphrase () = (.ok r, ()) ∧
      r.pageCount = commit.pageCount ∧
      ∀ (τ : Type) (visit : NonZeroU32 → Bytes → τ → Option (Except IoError Unit × τ)) (t : τ),
        Agree SameFailure Eq (snapshot.visitPages visit t) (r.visitPages C visit t) := by
  have hsalt : salt.toList = commit.checkpoint.take 16 := by rw [commit.take_checkpoint, h.first_page.1]
  obtain ⟨r, hopen, hsource, hdec, hrcount⟩ := SqlCipherReader.open_file C h.nonempty commit.length_checkpoint
    commit.pageCount_pos commit.pageCount_lt hsalt
  refine ⟨r, hopen, hrcount, fun τ visit t => ?_⟩
  rw [snapshot.visitPages_eq, r.visitPages_eq C, hcount, hrcount]
  refine forEach_agree (fun pageNo hmem s t hst => ?_) rfl
  subst hst
  have hle := mem_pageNumbers.1 hmem
  -- the snapshot's page and the reader's, both the decryptor's verdict on the selected page
  have hreader := r.fetchPage_of_open C hsource hdec (hrcount.symm ▸ commit.length_checkpoint) (hrcount.symm ▸ hle)
  rw [commit.pageOf_checkpoint hle] at hreader
  have hselected := selectedPage_of_serves commit hsize hserves hle
  unfold deliver
  dsimp only
  rw [hreader]
  cases hpage : PageDecryptor.openPage C ⟨config, .derive C config passphrase salt⟩ pageNo (commit.page pageNo) with
  | error e =>
    rw [hpage] at hselected
    obtain ⟨e', he'⟩ := hselected
    rw [he']
    exact .error (.page e' _) rfl
  | ok plain =>
    rw [hpage] at hselected
    have hselected' : snapshot.selectedPage pageNo = .ok plain := hselected
    rw [hselected']
    show Agree SameFailure Eq ((visit pageNo plain s).map _) ((visit pageNo plain s).map _)
    rcases visit pageNo plain s with _ | ⟨e | _, t'⟩
    · exact .panic
    · exact .error (.callback e) rfl
    · exact .ok rfl

/-- Reading a snapshot is reading the checkpointed file. Where page 1 of a main file authenticates,
`open_connection` builds its codec, and for every commit over that file and engine that serves it, the
core reader opens the file with the frames applied and visits the same pages, in order, with the same
effects, stopping at the same failing page or failing callback. -/
theorem visitPages_eq_checkpoint (walPages : Option Nat)
    (h : Authenticates C fs resolved config passphrase (FileSource main) main.length salt) :
    ∃ codec, openCodec C fs resolved config passphrase walPages =
        some (.ok (codec, saturatingAdd 32 (main.length / config.pageSize) (walPages.getD 0))) ∧
      ∀ (commit : Commit config main walPages) (snapshot : WalSnapshot), snapshot.pageCount = commit.pageCount →
        snapshot.pageSize = config.pageSize → commit.Serves C codec snapshot.connection.pager →
        ∃ r, SqlCipherReader.open C (FileSource commit.checkpoint) config passphrase () = (.ok r, ()) ∧
          r.pageCount = commit.pageCount ∧
          ∀ (τ : Type) (visit : NonZeroU32 → Bytes → τ → Option (Except IoError Unit × τ)) (t : τ),
            Agree SameFailure Eq (snapshot.visitPages visit t) (r.visitPages C visit t) := by
  exact ⟨(codecOf C resolved config passphrase walPages main.length salt).1,
    openCodec_of_authenticates C fs resolved config passphrase walPages h,
    fun commit _ hcount hsize hserves => visitPages_agree h commit hcount hsize hserves⟩

end Agreement

/-! ## The one-page database with its page in a WAL frame -/

def sampleCommit : Commit sampleConfig samplePage (some 1) where
  pageCount := 1
  frame number := if number = 1 then some samplePage else none
  pageCount_pos := Nat.one_pos
  pageCount_lt := NonZeroU32.one_lt
  bounded := by rw [length_samplePage]; decide
  length_frame {number payload} h := by
    split at h
    · cases h; exact length_samplePage
    · cases h
  covered {number} hpos hle h := by
    rw [if_pos (by omega)] at h; cases h
  salt {payload} h := by cases h; rfl
  mainOnly h := by cases h

/-- A snapshot of the sample commit; its engine reads the one page. -/
def sampleSnapshot : WalSnapshot where
  connection := {
    codec := (codecOf sample samplePath sampleConfig samplePassphrase (some 1) samplePage.length sampleSalt).1
    entry := 0
    pager := fun number => if number = 1 then .ok samplePlain else .error (.other 0) }
  pageCount := 1
  pageSize := 1024
  pageCount_pos := Nat.one_pos
  pageCount_lt := NonZeroU32.one_lt
  pageSize_eq := ⟨sampleConfig, rfl⟩

theorem serves_sample : sampleCommit.Serves sample sampleSnapshot.connection.codec sampleSnapshot.connection.pager := by
  apply serves_of_openPage sampleCommit
  intro pageNo hle
  obtain rfl : pageNo = .min := NonZeroU32.ext (Nat.le_antisymm hle pageNo.pos)
  rw [derive_sample, show (⟨sampleConfig, sampleKeys⟩ : PageDecryptor) = sampleDecryptor from rfl,
    show sampleCommit.page .min = samplePage from rfl, openPage_samplePage]
  show (if NonZeroU32.min.get = 1 then .ok samplePlain else .error (.other 0) : Except LimboError Bytes) = .ok samplePlain
  exact if_pos rfl

theorem visitPages_eq_checkpoint_sample :
    ∃ r, SqlCipherReader.open sample (FileSource sampleCommit.checkpoint) sampleConfig samplePassphrase () = (.ok r, ()) ∧
      r.pageCount = 1 ∧
      ∀ (τ : Type) (visit : NonZeroU32 → Bytes → τ → Option (Except IoError Unit × τ)) (t : τ),
        Agree SameFailure Eq (sampleSnapshot.visitPages visit t) (r.visitPages sample visit t) := by
  have hauth : Authenticates sample sampleFs samplePath sampleConfig samplePassphrase (FileSource samplePage)
      samplePage.length sampleSalt := length_samplePage.symm ▸ authenticates_sample rfl
  obtain ⟨codec, hcodec, hagree⟩ := visitPages_eq_checkpoint (some 1) hauth
  rw [openCodec_of_authenticates _ _ _ _ _ _ hauth, Option.some.injEq, Except.ok.injEq] at hcodec
  obtain rfl := congrArg Prod.fst hcodec
  exact hagree sampleCommit sampleSnapshot rfl rfl serves_sample

end Veilite.Turso

/-
Every run of `verify` and `export` keeps to the policy, whatever its calls are answered, and leaves nothing behind:
one lemma for each function of the source, from its first call to its last.
-/
import Veilite.Cli.Policy

namespace Veilite.Cli.Stepwise

open Buffer Veilite.Core Turso Interact

/-! ## How a program ends -/

/-- A value comes with `R`, an error where a run may end. -/
abbrev Ends {ε α σ : Type} (R : α → Phase → Prop) : Except ε α → σ → Phase → Prop := Finishes R Phase.Over

section Compliance

variable (C : Primitives) (config : CipherConfig) (job : Job) {σ : Type} (env : Environment Host σ)

/-! ## Looking -/

theorem companionExists_ensures {path : Path} {found : Findings} (h : found.Beside job path) (s : σ) :
    Ensures (policy C config job) (companionExists env path) s (.looking found) (Ends fun present phase =>
      phase.Over ∧ (present = false → phase = .looking { found with vacant := path :: found.vacant })) := by
  unfold companionExists
  refine ensures_bind (ensures_ask h ?_)
  generalize env (Call.symlinkMetadata path) s = answered
  obtain ⟨e | metadata, s'⟩ := answered
  · rw [then_ok]
    by_cases hkind : e.kind = .notFound
    · simp only [hkind, if_true]
      exact ensures_pure (by simp [policy, Phase.next, Findings.next, hkind, Phase.Over])
    · simp only [hkind, if_false]
      exact ensures_throw (by simp [policy, Phase.next, Findings.next, hkind, Phase.Over])
  · refine then_ok.2 (ensures_pure (finishes_ok.2 ⟨?_, by simp⟩))
    simp only [policy, Phase.next, Findings.next]
    split <;> exact trivial

theorem checkCompanionFile_ensures {path : Path} {suffix : Bytes} {found : Findings}
    (h : found.Beside job (companion path suffix)) (kind : String) (s : σ) :
    Ensures (policy C config job) (checkCompanionFile env path suffix kind) s (.looking found)
      (Ends fun _ phase => phase = .looking { found with vacant := companion path suffix :: found.vacant }) := by
  unfold checkCompanionFile
  refine ensures_bind_finishes (companionExists_ensures C config job env h s) fun present s' phase hphase => ?_
  refine ensures_refuse (fun _ => finishes_error.2 hphase.1) fun habsent => finishes_ok.2 (hphase.2 ?_)
  exact Bool.eq_false_of_not_eq_true habsent

theorem checkCompanionFiles_ensures (path : Path) {found : Findings} (h : path ∈ job.inputPath :: found.resolved.toList)
    (s : σ) : Ensures (policy C config job) (checkCompanionFiles env path) s (.looking found) (Ends fun _ phase =>
      phase = .looking { found with
        vacant := companion path journalSuffix :: companion path walSuffix :: found.vacant }) := by
  have hbeside : ∀ suffix ∈ [walSuffix, journalSuffix], ∀ vacant,
      Findings.Beside job { found with vacant := vacant } (companion path suffix) :=
    fun suffix hsuffix _ => ⟨path, h, suffix, hsuffix, rfl⟩
  unfold checkCompanionFiles
  refine ensures_bind_finishes (checkCompanionFile_ensures C config job env (hbeside walSuffix (by simp) found.vacant) _ s)
    fun _ s' phase hphase => ?_
  subst hphase
  exact checkCompanionFile_ensures C config job env (hbeside journalSuffix (by simp) _) _ s'

/-! ## Reading the file -/

/-- What a read for a page gives. -/
def readResult (decryptor : PageDecryptor) (pageNo : NonZeroU32) (read : Filled IoError UInt8) :
    Except (ReaderError IoError) Bytes :=
  match read.result with
  | .error e => .error (.source e)
  | .ok () => (decryptor.openPage C pageNo read.buffer).mapError .decrypt

theorem fetchPage_eq {τ : Type} {r : SqlCipherReader τ IoError} {source : ReadAt τ IoError} (hsource : r.source = source)
    {pageNo : NonZeroU32} (hle : pageNo.get ≤ r.pageCount) (t : τ) : r.fetchPage C pageNo t =
      (readResult C r.decryptor pageNo
          (source.readExactAt ((pageNo.get - 1) * r.pageSize) (List.replicate r.pageSize 0) t).1,
        (source.readExactAt ((pageNo.get - 1) * r.pageSize) (List.replicate r.pageSize 0) t).2) := by
  unfold SqlCipherReader.fetchPage readResult
  rw [if_neg (by omega), hsource]
  dsimp only
  rcases (source.readExactAt ((pageNo.get - 1) * r.pageSize) (List.replicate r.pageSize 0) t).1.result with e | _
  · rfl
  · dsimp only
    cases r.decryptor.openPage C pageNo _ <;> rfl

/-- A page in range is one read of the file, whatever the scratch page held. -/
theorem readPageInto_eq {reader : SqlCipherReader (Run Host σ) IoError} (hsource : reader.source = fileSource env)
    {pageNo : NonZeroU32} (hle : pageNo.get ≤ reader.pageCount) {output : Bytes} (hlen : output.length = reader.pageSize) :
    readPageInto C reader pageNo output =
      ask env (Call.readExactAt ((pageNo.get - 1) * reader.pageSize) (List.replicate reader.pageSize 0)) >>=
        fun read => lift (readResult C reader.decryptor pageNo read.1) := by
  funext run
  rw [bind_of_ok rfl]
  unfold readPageInto
  rw [reader.readPageInto_eq C hlen, fetchPage_eq C hsource hle]
  simp only [fileSource, Option.map_some, lift]
  generalize readResult C reader.decryptor pageNo _ = result
  cases result <;> rfl

/-- A source of the wrong length costs its length alone, any other the salt too. -/
theorem open_calls {τ : Type} {source : ReadAt τ IoError} {config : CipherConfig} {passphrase : Bytes} {t t1 : τ}
    {size : Nat} (hlen : source.len t = (.ok size, t1)) :
    (∃ e, SqlCipherReader.open C source config passphrase t = (.error e, t1)) ∨
      0 < size ∧ config.pageSize ∣ size ∧ size / config.pageSize < 2 ^ 32 ∧
        (SqlCipherReader.open C source config passphrase t).2 =
          (source.readExactAt 0 (List.replicate databaseSaltSize 0) t1).2 := by
  unfold SqlCipherReader.open
  rw [hlen]
  dsimp only
  split
  · exact .inl ⟨_, rfl⟩
  split
  · exact .inl ⟨_, rfl⟩
  split
  · exact .inl ⟨_, rfl⟩
  rename_i h0 hsmall hmul
  split
  · refine .inr ⟨Nat.pos_of_ne_zero h0, Nat.dvd_of_mod_eq_zero (not_not.1 hmul), ‹_›, ?_⟩
    split
    · rfl
    · split <;> rfl
  · exact .inl ⟨_, rfl⟩

theorem firstRead_over (key : Unlocked) (size : Nat) (read : Filled IoError UInt8) :
    (key.firstRead C config job size read).Over := by
  unfold Unlocked.firstRead
  split
  · dsimp only
    split
    · split <;> exact trivial
    · split
      · exact trivial
      · exact ⟨by simp [Paging.start], rfl⟩
  · exact trivial

theorem openSource_ensures (hwal : job.wal = false) (key : Unlocked) (s : σ) :
    Ensures (policy C config job) (openSource C (fileSource env) config key.passphrase) s (.opened key)
      (Ends fun reader phase => reader.source = fileSource env ∧ reader.decryptor.config = config ∧
        phase = .pages (.start (.file reader.decryptor) reader.pageCount false)) := by
  intro before
  unfold openSource
  generalize hopen : SqlCipherReader.open C (fileSource env) config key.passphrase (s, before) = opened
  rcases hlen : env Call.fileLen s with ⟨e | size, s1⟩
  · have hlen' : (fileSource env).len (s, before) = (.error e, (s1, before ++ [⟨Call.fileLen, .error e⟩])) := by
      simp only [fileSource, perform, hlen]
      rfl
    unfold SqlCipherReader.open at hopen
    rw [hlen'] at hopen
    subst hopen
    exact ⟨_, s1, [⟨Call.fileLen, .error e⟩], rfl, ⟨trivial, trivial⟩, finishes_error.2 trivial⟩
  have hlen' : (fileSource env).len (s, before) = (.ok size, (s1, before ++ [⟨Call.fileLen, .ok size⟩])) := by
    simp only [fileSource, perform, hlen]
    rfl
  -- without whole pages the length is the only call
  rcases open_calls C hlen' with ⟨e, he⟩ | ⟨hpos, hdvd, hlt, hrun⟩
  · rw [he] at hopen
    subst hopen
    exact ⟨_, s1, [⟨Call.fileLen, .ok size⟩], rfl, ⟨trivial, trivial⟩, finishes_error.2 trivial⟩
  rcases hread : env (Call.readExactAt 0 (List.replicate databaseSaltSize 0)) s1 with ⟨read, s2⟩
  have hread' : (fileSource env).readExactAt 0 (List.replicate databaseSaltSize 0) (s1, before ++ [⟨Call.fileLen, .ok size⟩]) =
      (read.1, (s2, before ++ [⟨Call.fileLen, .ok size⟩, ⟨Call.readExactAt 0 (List.replicate databaseSaltSize 0), read⟩])) := by
    simp [fileSource, perform, hread]
  rw [hread', hopen] at hrun
  obtain ⟨ended, run⟩ := opened
  obtain rfl : run = _ := hrun
  refine ⟨ended, s2, [⟨Call.fileLen, .ok size⟩, ⟨Call.readExactAt 0 (List.replicate databaseSaltSize 0), read⟩], rfl,
    ⟨trivial, ⟨hpos, hdvd, hlt, rfl, by simp [hwal]⟩, trivial⟩, ?_⟩
  rcases ended with e | reader
  · exact finishes_error.2 (firstRead_over C config job key size read.1)
  -- a reader that opened has the salt that was read
  obtain ⟨hsource, hne, hsize, salt, hsalt, hdec⟩ := SqlCipherReader.open_eq_ok C hopen
  rw [hlen'] at hsize hsalt
  obtain rfl : size = reader.fileSize := Except.ok.inj hsize
  have hread1 : read.1 = ⟨.ok (), salt.toList⟩ := congrArg Prod.fst (hread'.symm.trans hsalt)
  have hps : reader.decryptor.config = config := by rw [hdec]
  have hcount : reader.fileSize / config.pageSize = reader.pageCount := by
    rw [← reader.fileSize_eq, hps, Nat.mul_div_cancel _ config.pageSize_pos]
  have harr : Arr.ofList 16 (salt.toList.take 16) = some salt := by
    rw [List.take_of_length_le salt.length_eq.le, Arr.ofList_toList]
  refine finishes_ok.2 ⟨hsource, hps, ?_⟩
  show key.firstRead C config job reader.fileSize read.1 = _
  unfold Unlocked.firstRead
  simp [hread1, hwal, hne, hcount, hdec, harr]

/-! ## Opening the main file -/

theorem openEncryptedDatabase_ensures (hwal : job.wal = false) (key : Unlocked) (s : σ) :
    Ensures (policy C config job) (openEncryptedDatabase env key.resolved) s (.unlocked key)
      (Ends fun source phase => source = fileSource env ∧ phase = .opened key) := by
  unfold openEncryptedDatabase
  refine ensures_bind (ensures_orThrow (ensures_ask ⟨rfl, by simp [hwal]⟩ ?_))
  generalize env (Call.openFile key.resolved) s = answered
  obtain ⟨e | _, s⟩ := answered
  · exact then_error.2 (finishes_error.2 trivial)
  · exact then_ok.2 (ensures_pure (finishes_ok.2 ⟨rfl, rfl⟩))

theorem openReader_ensures (hwal : job.wal = false) (hconfig : job.cipher.config = .ok config) (s : σ) :
    Ensures (policy C config job) (openReader C env job.inputPath job.cipher job.passphraseFile) s .start
      (Ends fun reader phase => reader.source = fileSource env ∧ reader.decryptor.config = config ∧
        phase = .pages (.start (.file reader.decryptor) reader.pageCount false)) := by
  unfold openReader
  refine ensures_bind (ensures_lift ?_)
  rw [hconfig, then_ok]
  refine ensures_bind_finishes (ensures_mapError_finishes (checkCompanionFiles_ensures C config job env job.inputPath (by simp) s))
    fun _ s phase hphase => ?_
  subst hphase
  -- nothing is resolved yet, so the input may be
  refine ensures_bind (ensures_orThrow (ensures_ask (.inl ⟨rfl, rfl⟩) ?_))
  generalize env (Call.canonicalize job.inputPath) s = answered
  obtain ⟨e | resolved, s⟩ := answered
  · exact then_error.2 (finishes_error.2 trivial)
  refine then_ok.2 ?_
  refine ensures_bind_finishes (ensures_mapError_finishes (checkCompanionFiles_ensures C config job env resolved
    (by simp) s)) fun _ s phase hphase => ?_
  subst hphase
  refine ensures_bind (ensures_orThrow (ensures_ask ⟨rfl, resolved, ?_⟩ ?_))
  · exact ⟨rfl, by simp, fun _ => by simp, by simp [hwal]⟩
  generalize env (Call.readPassphrase job.passphraseFile) s = answered
  obtain ⟨e | passphrase, s⟩ := answered
  · exact then_error.2 (finishes_error.2 trivial)
  refine then_ok.2 ?_
  refine ensures_bind_finishes (ensures_mapError_finishes (openEncryptedDatabase_ensures C config job env hwal
    ⟨_, resolved, passphrase⟩ s)) fun source s phase h => ?_
  obtain ⟨rfl, rfl⟩ := h
  exact ensures_mapError_finishes (openSource_ensures C config job env hwal ⟨_, resolved, passphrase⟩ s)

/-! ## Going through the pages -/

/-- The destination while pages are gone through. -/
def Job.during : Destination := if job.output = none then .untouched else .created

/-- `pages` have been read and dealt with. -/
def Paging.reached (start : Paging) (pages : List Bytes) : Paging :=
  { start with pages := pages, written := if job.output = none then 0 else pages.length, destination := job.during }

/-- A page was not read, or not written. -/
def Paging.Failed (start : Paging) (phase : Phase) : Prop :=
  ∃ paging, phase = .pages paging ∧ paging.intact = false ∧ paging.begun = start.begun ∧ paging.destination = job.during

/-- Going through the pages ends with all of them, or failed. -/
def Through (start : Paging) {ε α : Type} (ended : Except ε α) (_ : σ) (phase : Phase) : Prop :=
  (∀ a, ended = .ok a → ∃ pages, pages.length = start.count ∧ phase = .pages (start.reached job pages)) ∧
    ∀ e, ended = .error e → start.Failed job phase

theorem Paging.clear_reached {start : Paging} (hintact : start.intact = true) (pages : List Bytes) :
    (start.reached job pages).Clear job := by
  unfold Paging.reached Paging.Clear Job.during
  rcases job.output with _ | path <;> simp [hintact]

theorem number_of_split {count number : Nat} {done rest : List Nat} (h : List.range' 1 count = done ++ number :: rest) :
    number = done.length + 1 ∧ done.length < count := by
  have hget : (List.range' 1 count)[done.length]? = some number := by simp [h]
  rw [List.getElem?_eq_some_iff] at hget
  obtain ⟨hlt, hnumber⟩ := hget
  rw [List.length_range'] at hlt
  rw [List.getElem_range'] at hnumber
  omega

/-- A loop over the numbers `1..=count`, each of which finds the pages before it dealt with and deals with its own. -/
theorem pages_ensures {β ε : Type} {step : β → Nat → Program Host σ ε β} (start : Paging) (P : β → Prop)
    (hstep : ∀ pages b s, P b → pages.length < start.count →
      Ensures (policy C config job) (step b (pages.length + 1)) s (.pages (start.reached job pages)) fun ended _ phase =>
        (∀ b', ended = .ok b' → P b' ∧ ∃ page, phase = .pages (start.reached job (pages ++ [page]))) ∧
          ∀ e, ended = .error e → start.Failed job phase)
    {b : β} (hb : P b) (s : σ) :
    Ensures (policy C config job) ((List.range' 1 start.count).foldlM step b) s (.pages (start.reached job []))
      (Through job start) := by
  refine ensures_foldlM (fun done b _ phase => P b ∧ ∃ pages, pages.length = done.length ∧
    phase = .pages (start.reached job pages)) ⟨hb, [], rfl, rfl⟩ ?_ ?_
  · rintro done number rest b s phase hsplit ⟨hb, pages, hlen, rfl⟩
    obtain ⟨rfl, hlt⟩ := number_of_split hsplit
    rw [← hlen] at hlt ⊢
    refine ensures_mono (hstep pages b s hb hlt) fun ended s' phase h => ⟨fun b' hended => ?_, fun e hended => ?_⟩
    · obtain ⟨hb', page, rfl⟩ := h.1 b' hended
      exact ⟨hb', pages ++ [page], by simp [hlen], rfl⟩
    · exact ⟨by simp, fun e' he' => by cases he'; exact h.2 e hended⟩
  · rintro b s phase ⟨-, pages, hlen, rfl⟩
    refine ⟨fun b' _ => ⟨pages, by simpa using hlen, rfl⟩, by simp⟩

/-- Reading the next page, and where that leaves the policy. -/
theorem next_readExactAt (start : Paging) {pages : List Bytes} {decryptor : PageDecryptor}
    (horigin : start.origin = .file decryptor) {pageNo : NonZeroU32} (hpage : pageNo.get = pages.length + 1) (offset : Nat)
    (output : Bytes) (read : (Call.readExactAt offset output).Reply) :
    (∀ plain, readResult C decryptor pageNo read.1 = .ok plain →
      (start.reached job pages).next C config (.readExactAt offset output) read =
        { start.reached job pages with pages := pages ++ [plain] }) ∧
    ∀ e, readResult C decryptor pageNo read.1 = .error e →
      (start.reached job pages).next C config (.readExactAt offset output) read =
        { start.reached job pages with intact := false } := by
  have hnew : NonZeroU32.new (pages.length + 1) = some pageNo := by
    rw [← hpage]
    exact NonZeroU32.new_eq_some pageNo.pos pageNo.lt
  have hopened : ∀ buffer, (start.reached job pages).opened C buffer = (decryptor.openPage C pageNo buffer).toOption := by
    intro buffer
    simp [Paging.opened, Paging.reached, horigin, hnew]
  obtain ⟨⟨e | _, buffer⟩, hbuffer⟩ := read
  · exact ⟨by rintro plain ⟨⟩, fun e' _ => rfl⟩
  unfold readResult Paging.next
  dsimp only
  rw [hopened]
  rcases decryptor.openPage C pageNo buffer with e | plain
  · exact ⟨by rintro plain ⟨⟩, fun e' _ => rfl⟩
  · refine ⟨?_, by rintro e ⟨⟩⟩
    rintro plain' ⟨⟩
    rfl

theorem length_of_readResult {decryptor : PageDecryptor} {pageNo : NonZeroU32} {read : Filled IoError UInt8} {plain : Bytes}
    (h : readResult C decryptor pageNo read = .ok plain) : plain.length = decryptor.config.pageSize := by
  unfold readResult at h
  rcases hresult : read.result with e | _
  · rw [hresult] at h
    cases h
  · rw [hresult] at h
    exact PageDecryptor.length_of_openPage (Traverse.mapError_eq_ok_iff.1 h)

/-! ## The main-only commands -/

section Main

variable {reader : SqlCipherReader (Run Host σ) IoError} (hsource : reader.source = fileSource env)
  (hconfig : reader.decryptor.config = config) (hwal : job.wal = false)
include hsource hconfig hwal

/-- The next page is read where the policy expects it. -/
theorem readNext_ensures {pages : List Bytes} {pageNo : NonZeroU32} (hpage : pageNo.get = pages.length + 1)
    (hlt : pages.length < reader.pageCount) {scratch : Bytes} (hscratch : scratch.length = reader.pageSize) (s : σ) :
    Ensures (policy C config job) (mapError CliError.reader (readPageInto C reader pageNo scratch)) s
      (.pages ((Paging.start (.file reader.decryptor) reader.pageCount false).reached job pages)) fun ended _ phase =>
        (∀ plain, ended = .ok plain → plain.length = reader.pageSize ∧
          phase = .pages { (Paging.start (.file reader.decryptor) reader.pageCount false).reached job pages with
            pages := pages ++ [plain] }) ∧
        ∀ e, ended = .error e → (Paging.start (.file reader.decryptor) reader.pageCount false).Failed job phase := by
  have hps : reader.pageSize = config.pageSize := congrArg CipherConfig.pageSize hconfig
  rw [readPageInto_eq C env hsource (by omega) hscratch, hpage, Nat.add_sub_cancel, hps]
  refine ensures_mapError (ensures_bind (ensures_ask ⟨Paging.clear_reached job rfl pages, hwal, hlt, rfl, rfl⟩
    (then_ok.2 (ensures_lift ?_))))
  generalize env (Call.readExactAt (pages.length * config.pageSize) (List.replicate config.pageSize 0)) s = answered
  obtain ⟨read, s⟩ := answered
  obtain ⟨hread, hfail⟩ := next_readExactAt C config job (.start (.file reader.decryptor) reader.pageCount false) rfl hpage
    _ _ read
  rcases hresult : readResult C reader.decryptor pageNo read.1 with e | plain
  · exact ⟨by rintro plain ⟨⟩, fun _ _ => ⟨_, congrArg Phase.pages (hfail e hresult), rfl, rfl, rfl⟩⟩
  · refine ⟨fun plain' h => ?_, by rintro e ⟨⟩⟩
    cases h
    exact ⟨by rw [length_of_readResult C hresult, hconfig], congrArg Phase.pages (hread plain hresult)⟩

omit hsource hconfig hwal in
theorem nonzeroPageNumber_eq {pages : List Bytes} (hlt : pages.length < reader.pageCount) :
    ∃ pageNo : NonZeroU32, pageNo.get = pages.length + 1 ∧ nonzeroPageNumber (pages.length + 1) = .ok pageNo := by
  have hcount := reader.pageCount_lt
  refine ⟨⟨pages.length + 1, Nat.succ_pos _, by omega⟩, rfl, ?_⟩
  unfold nonzeroPageNumber
  rw [NonZeroU32.new_eq_some (Nat.succ_pos _) (by omega)]

theorem verifyPages_ensures (houtput : job.output = none) (s : σ) :
    Ensures (policy C config job)
      ((List.range' 1 reader.pageCount).foldlM (verifyPage C reader) (List.replicate reader.pageSize 0)) s
      (.pages ((Paging.start (.file reader.decryptor) reader.pageCount false).reached job []))
      (Through job (.start (.file reader.decryptor) reader.pageCount false)) := by
  refine pages_ensures C config job (.start (.file reader.decryptor) reader.pageCount false)
    (fun scratch => scratch.length = reader.pageSize) (fun pages scratch s hscratch hlt => ?_) List.length_replicate s
  obtain ⟨pageNo, hpage, hnew⟩ := nonzeroPageNumber_eq hlt
  unfold verifyPage
  rw [hnew]
  refine ensures_bind (ensures_lift (then_ok.2 ?_))
  refine ensures_mono (readNext_ensures C config job env hsource hconfig hwal hpage hlt hscratch s) fun ended s phase h =>
    ⟨fun plain hplain => ?_, h.2⟩
  obtain ⟨hlen, rfl⟩ := h.1 plain hplain
  exact ⟨hlen, plain, by simp [Paging.reached, houtput]⟩

theorem writeReaderPages_ensures {path : Path} (houtput : job.output = some path) (s : σ) :
    Ensures (policy C config job)
      ((List.range' 1 reader.pageCount).foldlM (writeReaderPage C env path reader) (List.replicate reader.pageSize 0)) s
      (.pages ((Paging.start (.file reader.decryptor) reader.pageCount false).reached job []))
      (Through job (.start (.file reader.decryptor) reader.pageCount false)) := by
  refine pages_ensures C config job (.start (.file reader.decryptor) reader.pageCount false)
    (fun scratch => scratch.length = reader.pageSize) (fun pages scratch s hscratch hlt => ?_) List.length_replicate s
  obtain ⟨pageNo, hpage, hnew⟩ := nonzeroPageNumber_eq hlt
  unfold writeReaderPage
  rw [hnew]
  refine ensures_bind (ensures_lift (then_ok.2 (ensures_bind (ensures_mono
    (readNext_ensures C config job env hsource hconfig hwal hpage hlt hscratch s) fun ended s phase h => ?_))))
  rcases ended with e | plain
  · exact then_error.2 ⟨by simp, fun _ _ => h.2 e rfl⟩
  obtain ⟨hlen, rfl⟩ := h.1 plain rfl
  refine then_ok.2 (ensures_bind (ensures_orThrow (ensures_ask ?_ ?_)))
  · simp [policy, Phase.allows, Paging.allows, Paging.reached, Paging.start, Job.during, houtput]
  generalize env (Call.writeAll plain) s = answered
  obtain ⟨e | _, s⟩ := answered
  · exact then_error.2 ⟨by simp, fun _ _ => ⟨_, rfl, rfl, rfl, rfl⟩⟩
  · refine then_ok.2 (ensures_pure ⟨fun b' hb' => ?_, by simp⟩)
    cases hb'
    exact ⟨hlen, plain, by simp [policy, Phase.next, Paging.next, Paging.reached, houtput]⟩

end Main

/-! ## The destination -/

/-- The pages are through, and the destination is as the report needs it. -/
def Paging.Final (start : Paging) (phase : Phase) : Prop :=
  ∃ paging, phase = .pages paging ∧ paging.intact = true ∧ paging.begun = false ∧ paging.reported = false ∧
    paging.destination = (if job.output = none then .untouched else .synced) ∧ paging.count = start.count ∧
    paging.pages.length = start.count

theorem cleanupFailedExport_ensures {path : Path} (houtput : job.output = some path) (error : CliError) (paging : Paging)
    (hintact : paging.intact = false) (hbegun : paging.begun = false) (hcreated : paging.destination = .created) (s : σ) :
    Ensures (policy C config job) (cleanupFailedExport env path error) s (.pages paging)
      (Ends fun _ phase => phase.Over) := by
  unfold cleanupFailedExport
  refine ensures_bind (ensures_ask ⟨houtput, hintact, hcreated, hbegun⟩ (then_ok.2 ?_))
  generalize env (Call.removeFile path) s = answered
  obtain ⟨e | _, s⟩ := answered
  · exact ensures_pure (finishes_ok.2 ⟨by simp [Paging.next], hbegun⟩)
  · exact ensures_pure (finishes_ok.2 ⟨by simp [Paging.next], hbegun⟩)

/-- Filling the created file by a program that goes through the pages, and closes any transaction. -/
theorem writePlaintextFile_ensures {path : Path} (houtput : job.output = some path) (start : Paging)
    (hstart : ∃ origin count begun, start = .start origin count begun)
    (writePages dropped : Program Host σ CliError Unit)
    (hwrite : ∀ s, Ensures (policy C config job) writePages s (.pages (start.reached job []))
      (Through job { start with begun := false }))
    (hdropped : ∀ s, Ensures (policy C config job) dropped s (.pages { start with intact := false })
      (Ends fun _ phase => phase.Over)) (s : σ) :
    Ensures (policy C config job) (writePlaintextFile env path writePages dropped) s (.pages start)
      (Ends fun _ phase => start.Final job phase) := by
  obtain ⟨origin, count, begun, rfl⟩ := hstart
  unfold writePlaintextFile
  refine ensures_bind (ensures_ask ⟨houtput, rfl, rfl, rfl⟩ (then_ok.2 ?_))
  generalize env (Call.createNew path) s = answered
  obtain ⟨source | _, s⟩ := answered
  · -- nothing was created, and what was to be written is dropped
    exact ensures_bind_finishes (hdropped s) fun _ s phase h => ensures_throw (finishes_error.2 h)
  have hcreated : (policy C config job).next (.pages (.start origin count begun)) (Call.createNew path) (.ok ()) =
      .pages ((Paging.start origin count begun).reached job []) := by
    simp [policy, Phase.next, Paging.next, Paging.reached, Paging.start, Job.during, houtput]
  dsimp only
  rw [hcreated]
  refine ensures_bind (ensures_outcome ?_)
  refine ensures_bind (ensures_mono (hwrite s) fun ended s phase h => ?_)
  rcases ended with e | _
  · -- the pages failed with the file there
    obtain ⟨paging, rfl, hintact, hbegun, hdest⟩ := h.2 e rfl
    have hcleanup := cleanupFailedExport_ensures C config job env houtput e paging hintact hbegun
      (by rw [hdest, Job.during, houtput]; rfl) s
    exact then_error.2 (then_ok.2 (ensures_bind_finishes hcleanup fun _ s phase h => ensures_throw (finishes_error.2 h)))
  obtain ⟨pages, hlen, rfl⟩ := h.1 () rfl
  refine then_ok.2 (ensures_orThrow (ensures_ask ?_ ?_))
  · refine ⟨Paging.clear_reached job rfl pages, ?_, rfl, hlen⟩
    simp [Paging.reached, Job.during, houtput]
  generalize env Call.syncAll s = answered
  obtain ⟨source | _, s⟩ := answered
  · -- the sync failed
    have hcleanup := cleanupFailedExport_ensures C config job env houtput
      (.io (pathIoError "failed to sync export" path source)) { Paging.reached job
        { Paging.start origin count begun with begun := false } pages with intact := false } rfl rfl
        (by simp [Paging.reached, Job.during, houtput]) s
    exact then_ok.2 (ensures_bind_finishes hcleanup fun _ s phase h => ensures_throw (finishes_error.2 h))
  · refine then_ok.2 (ensures_pure (finishes_ok.2 ⟨_, rfl, rfl, rfl, rfl, ?_, rfl, hlen⟩))
    simp [Paging.next, houtput]

theorem print_ensures {start : Paging} {phase : Phase} (h : start.Final job phase) {line : Message}
    (hline : line = job.report start.count) (s : σ) :
    Ensures (policy C config job) (print env line) s phase (Ends fun _ phase => phase.Over ∧ phase.Done) := by
  obtain ⟨paging, rfl, hintact, hbegun, hreported, hdest, hcount, hlen⟩ := h
  have hover : paging.destination ≠ .created := by
    rw [hdest]
    split <;> simp
  unfold print
  refine ensures_orThrow (ensures_ask ⟨hintact, hbegun, hreported, hdest, by rw [hlen, hcount], by rw [hline, hcount]⟩ ?_)
  generalize env (Call.print line) s = answered
  obtain ⟨e | _, s⟩ := answered
  · exact finishes_error.2 ⟨hover, hbegun⟩
  · exact finishes_ok.2 ⟨⟨hover, hbegun⟩, rfl⟩

/-! ## Opening a snapshot -/

theorem rejectJournal_ensures {path : Path} (found : Findings) (h : found.Beside job (companion path journalSuffix)) (s : σ) :
    Ensures (policy C config job) (rejectJournal env path) s (.looking found)
      (Ends fun _ phase => phase = .looking { found with vacant := companion path journalSuffix :: found.vacant }) := by
  unfold rejectJournal
  refine ensures_bind (ensures_ask h (then_ok.2 ?_))
  generalize env (Call.symlinkMetadata (companion path journalSuffix)) s = answered
  obtain ⟨e | metadata, s⟩ := answered
  · refine ensures_refuse (fun hkind => finishes_error.2 ?_) fun hkind => finishes_ok.2 ?_
    · simp [policy, Phase.next, Findings.next, hkind, Phase.Over]
    · simp [policy, Phase.next, Findings.next, not_not.1 hkind]
  · refine ensures_throw (finishes_error.2 ?_)
    simp only [policy, Phase.next, Findings.next]
    split <;> exact trivial

theorem metadata_over {path : Path} (found : Findings) (metadata : Metadata) :
    ((policy C config job).next (.looking found) (Call.metadata path) (.ok metadata)).Over := by
  simp only [policy, Phase.next, Findings.next]
  split <;> exact trivial

theorem next_vacant {path : Path} (found : Findings) {e : IoError} (h : e.kind = .notFound) :
    (policy C config job).next (.looking found) (Call.symlinkMetadata path) (.error e) =
      .looking { found with vacant := path :: found.vacant } :=
  if_pos h

theorem next_alias (hwal : job.wal = true) (found : Findings) (metadata : Metadata) :
    (policy C config job).next (.looking found) (Call.symlinkMetadata (companion job.inputPath walSuffix)) (.ok metadata) =
      .looking found :=
  if_pos ⟨hwal, rfl⟩

theorem next_metadata {path : Path} (found : Findings) (metadata : Metadata) (h : metadata.isFile = true) :
    (policy C config job).next (.looking found) (Call.metadata path) (.ok metadata) =
      .looking { found with files := (path, metadata.len) :: found.files } :=
  if_pos h

/-- The last check of `WalInput::open`. -/
theorem checkedInput_ensures {found : Findings} {resolved : Path} {walSize : Nat}
    (hready : toStr resolved ≠ none → found.Ready job resolved) (hfile : (companion resolved walSuffix, walSize) ∈ found.files)
    (s : σ) : Ensures (policy C config job)
      (refuse (toStr resolved = none) OpenError.nonUtf8Path >>= fun _ => pure (⟨resolved, walSize⟩ : WalInput)) s
      (.looking found) (Ends fun input phase => ∃ found : Findings, phase = .looking found ∧ found.Ready job input.path ∧
        (companion input.path walSuffix, input.walSize) ∈ found.files) := by
  refine ensures_bind (ensures_refuse (fun _ => then_error.2 (finishes_error.2 trivial)) fun hstr => then_ok.2 ?_)
  exact ensures_pure (finishes_ok.2 ⟨found, rfl, hready hstr, hfile⟩)

/-- What `WalInput::open` leaves makes the input ready, and has the length of its WAL. -/
theorem openWalInput_ensures (hwal : job.wal = true) (s : σ) :
    Ensures (policy C config job) (openWalInput env job.inputPath) s .start (Ends fun input phase =>
      ∃ found : Findings, phase = .looking found ∧ found.Ready job input.path ∧
        (companion input.path walSuffix, input.walSize) ∈ found.files) := by
  unfold openWalInput
  refine ensures_bind_finishes (rejectJournal_ensures C config job env _ ⟨job.inputPath, by simp, journalSuffix, by simp, rfl⟩ s)
    fun _ s phase hphase => ?_
  subst hphase
  refine ensures_bind (ensures_orThrow (ensures_ask (.inl ⟨rfl, rfl⟩) ?_))
  generalize env (Call.canonicalize job.inputPath) s = answered
  obtain ⟨e | resolved, s⟩ := answered
  · exact then_error.2 (finishes_error.2 trivial)
  refine then_ok.2 (ensures_bind_finishes (rejectJournal_ensures C config job env
    ⟨_, _, _, some resolved⟩ ⟨resolved, by simp, journalSuffix, by simp, rfl⟩ s) fun _ s phase hphase => ?_)
  subst hphase
  refine ensures_bind (ensures_orThrow (ensures_ask ⟨hwal, resolved, rfl, .inl rfl⟩ ?_))
  generalize env (Call.metadata resolved) s = answered
  obtain ⟨e | main, s⟩ := answered
  · exact then_error.2 (finishes_error.2 trivial)
  refine then_ok.2 (ensures_bind (ensures_refuse (fun hfile => ?_) fun hfile => then_ok.2 ?_))
  · exact then_error.2 (finishes_error.2 (metadata_over C config job _ _))
  rw [next_metadata C config job _ _ (not_not.1 hfile)]
  refine ensures_bind (ensures_orThrow (ensures_ask ⟨hwal, resolved, rfl, .inr rfl⟩ ?_))
  generalize env (Call.metadata (companion resolved walSuffix)) s = answered
  obtain ⟨e | wal, s⟩ := answered
  · exact then_error.2 (finishes_error.2 trivial)
  refine then_ok.2 (ensures_bind (ensures_refuse (fun hfile => ?_) fun hfile => then_ok.2 ?_))
  · exact then_error.2 (finishes_error.2 (metadata_over C config job _ _))
  rw [next_metadata C config job _ _ (not_not.1 hfile)]
  -- beside the input there may be a WAL, if it is the same one
  refine ensures_bind (ensures_ask ⟨job.inputPath, by simp, walSuffix, by simp, rfl⟩ (then_ok.2 ?_))
  generalize env (Call.symlinkMetadata (companion job.inputPath walSuffix)) s = answered
  obtain ⟨e | metadata, s⟩ := answered
  · refine ensures_bind (ensures_refuse (fun hkind => then_error.2 (finishes_error.2 ?_)) fun hkind => then_ok.2 ?_)
    · simp [policy, Phase.next, Findings.next, hkind, Phase.Over]
    rw [next_vacant C config job _ (not_not.1 hkind)]
    refine checkedInput_ensures C config job (fun hstr => ⟨rfl, by simp, by simp [hwal], fun _ => ⟨hstr, ?_⟩⟩) (by simp) s
    exact ⟨⟨main.len, by simp⟩, ⟨wal.len, by simp⟩, .inl (by simp)⟩
  rw [next_alias C config job hwal]
  refine ensures_bind (ensures_orThrow (ensures_ask (.inr ⟨hwal, resolved, rfl, .inl rfl⟩) ?_))
  generalize env (Call.canonicalize (companion job.inputPath walSuffix)) s = answered
  obtain ⟨e | beside, s⟩ := answered
  · exact then_error.2 (finishes_error.2 trivial)
  refine then_ok.2 (ensures_bind (ensures_orThrow (ensures_ask (.inr ⟨hwal, resolved, rfl, .inr rfl⟩) ?_)))
  generalize env (Call.canonicalize (companion resolved walSuffix)) s = answered
  obtain ⟨e | sibling, s⟩ := answered
  · exact then_error.2 (finishes_error.2 trivial)
  refine then_ok.2 (ensures_bind (ensures_refuse (fun _ => then_error.2 (finishes_error.2 trivial)) fun hsame => then_ok.2 ?_))
  obtain rfl := not_not.1 hsame
  refine checkedInput_ensures C config job (fun hstr => ⟨rfl, by simp, by simp [hwal], fun _ => ⟨hstr, ?_⟩⟩) (by simp) s
  exact ⟨⟨main.len, by simp⟩, ⟨wal.len, by simp⟩, .inr ⟨beside, by simp, by simp⟩⟩

/-- Page 1 authenticates under the caller's key before the engine is called. -/
theorem openCodec_ensures (hwal : job.wal = true) (key : Unlocked) (walPages : Option Nat) (s : σ) :
    Ensures (policy C config job) (openCodec C env key.resolved config key.passphrase walPages) s (.unlocked key)
      (Ends fun codec phase => ∃ size salt, phase = .authenticated key size salt ∧
        codec = codecOf C key.resolved config key.passphrase walPages size salt) := by
  have hps := config.pageSize_ge
  unfold openCodec
  refine ensures_bind (ensures_refuse (fun _ => then_error.2 (finishes_error.2 trivial)) fun hne => then_ok.2 ?_)
  rcases hstr : toStr key.resolved with _ | path
  · exact ensures_bind (ensures_lift (then_error.2 (finishes_error.2 trivial)))
  obtain rfl := toStr_eq hstr
  refine ensures_bind (ensures_lift (then_ok.2 ?_))
  refine ensures_bind (ensures_orThrow (ensures_ask ⟨rfl, fun _ => hne⟩ ?_))
  generalize env (Call.openFile key.resolved) s = answered
  obtain ⟨e | _, s⟩ := answered
  · exact then_error.2 (finishes_error.2 trivial)
  refine then_ok.2 (ensures_bind (ensures_orThrow (ensures_ask trivial ?_)))
  generalize env Call.fileLen s = answered
  obtain ⟨e | size, s⟩ := answered
  · exact then_error.2 (finishes_error.2 trivial)
  refine then_ok.2 ?_
  refine ensures_bind (ensures_refuse (fun _ => then_error.2 (finishes_error.2 trivial)) fun h0 => then_ok.2 ?_)
  refine ensures_bind (ensures_refuse (fun _ => then_error.2 (finishes_error.2 trivial)) fun hsmall => then_ok.2 ?_)
  refine ensures_bind (ensures_refuse (fun _ => then_error.2 (finishes_error.2 trivial)) fun hmul => then_ok.2 ?_)
  rcases hcount : tryFrom 32 (size / config.pageSize) with _ | pageCount
  · exact ensures_bind (ensures_lift (then_error.2 (finishes_error.2 trivial)))
  obtain ⟨hlt, rfl⟩ := tryFrom_eq_some_iff.1 hcount
  refine ensures_bind (ensures_lift (then_ok.2 ?_))
  have hdvd : config.pageSize ∣ size := Nat.dvd_of_mod_eq_zero (not_not.1 hmul)
  refine ensures_bind (ensures_ask ⟨Nat.pos_of_ne_zero h0, hdvd, hlt, rfl, by simp [hwal]⟩ (then_ok.2 ?_))
  generalize env (Call.readExactAt 0 (List.replicate config.pageSize 0)) s = answered
  obtain ⟨⟨⟨e | _, buffer⟩, hbuffer⟩, s⟩ := answered
  · exact ensures_bind (ensures_lift (then_error.2 (finishes_error.2 (firstRead_over C config job key size ⟨.error e, buffer⟩))))
  refine ensures_bind (ensures_lift (then_ok.2 ?_))
  have hlen : buffer.length = config.pageSize := hbuffer.trans List.length_replicate
  have htake : (buffer.take 16).length = 16 := by
    rw [List.length_take]
    omega
  have hsalt : (slice buffer 0 16).bind (Arr.ofList 16) = some ⟨buffer.take 16, htake⟩ := by
    rw [slice_eq_some (Nat.zero_le 16) (by omega)]
    exact Arr.ofList_eq_some htake
  refine ensures_bind (ensures_panicking hsalt (then_ok.2 ?_))
  have hnew : PageDecryptor.new C config key.passphrase ⟨buffer.take 16, htake⟩ = .ok _ :=
    PageDecryptor.new_eq_ok_iff.2 ⟨hne, rfl⟩
  rw [hnew]
  refine ensures_bind (ensures_lift (then_ok.2 ?_))
  refine ensures_bind (ensures_panicking (PageDecryptor.decryptPageInPlace_eq C _ _ _) (then_ok.2 ?_))
  -- where the policy is after that read
  have hfirst : key.firstRead C config job size ⟨.ok (), buffer⟩ =
      (PageDecryptor.openPage C ⟨config, .derive C config key.passphrase ⟨buffer.take 16, htake⟩⟩ .min buffer).toOption.elim
        .closed fun _ => .authenticated key size ⟨buffer.take 16, htake⟩ := by
    unfold Unlocked.firstRead
    simp only [Arr.ofList_eq_some htake, hwal, if_true]
    cases PageDecryptor.openPage C _ _ _ <;> rfl
  show Ensures _ _ _ (key.firstRead C config job size ⟨.ok (), buffer⟩) _
  rw [hfirst]
  rcases PageDecryptor.openPage C ⟨config, .derive C config key.passphrase ⟨buffer.take 16, htake⟩⟩ .min buffer with e | plain
  · exact ensures_bind (ensures_lift (then_error.2 (finishes_error.2 trivial)))
  · exact ensures_bind (ensures_lift (then_ok.2 (ensures_pure (finishes_ok.2 ⟨size, _, rfl, rfl⟩))))

/-- The engine is given the codec of the file that authenticated, once. -/
theorem openConnection_ensures (hwal : job.wal = true) (key : Unlocked) {walSize : Nat}
    (hsize : (companion key.resolved walSuffix, walSize) ∈ key.found.files) (s : σ) :
    Ensures (policy C config job) (openConnection C env key.resolved config key.passphrase
      (some (WalInput.frames ⟨key.resolved, walSize⟩ config))) s (.unlocked key)
      (Ends fun maximum phase => ∃ codec, phase = .connected codec ∧ codec.walPageLimit = some maximum) := by
  unfold openConnection
  refine ensures_bind_finishes (openCodec_ensures C config job env hwal key _ s) fun codec s phase h => ?_
  obtain ⟨size, salt, rfl, rfl⟩ := h
  refine ensures_bind (ensures_orThrow (ensures_ask trivial ?_))
  generalize env Call.platformIo s = answered
  obtain ⟨e | _, s⟩ := answered
  · exact then_error.2 (finishes_error.2 trivial)
  refine then_ok.2 (ensures_bind (ensures_orThrow (ensures_ask ⟨rfl, walSize, hsize, rfl⟩ ?_)))
  generalize env (Call.openDatabase key.resolved _) s = answered
  obtain ⟨e | _, s⟩ := answered
  · exact then_error.2 (finishes_error.2 trivial)
  refine then_ok.2 (ensures_bind (ensures_orThrow (ensures_ask rfl ?_)))
  generalize env (Call.connect _) s = answered
  obtain ⟨e | _, s⟩ := answered
  · exact then_error.2 (finishes_error.2 trivial)
  · exact then_ok.2 (ensures_pure (finishes_ok.2 ⟨_, rfl, rfl⟩))

theorem beginSnapshot_ensures (codec : SqlCipherCodec) {maximum : Nat} (hmax : codec.walPageLimit = some maximum) (s : σ) :
    Ensures (policy C config job) (beginSnapshot env config maximum) s (.connected codec)
      (Ends fun snapshot phase => snapshot.pageSize = config.pageSize ∧ snapshot.pageCount < 2 ^ 32 ∧
        phase = .pages (.start .engine snapshot.pageCount true)) := by
  unfold beginSnapshot
  refine ensures_bind (ensures_orThrow (ensures_ask trivial ?_))
  generalize env Call.beginRead s = answered
  obtain ⟨e | _, s⟩ := answered
  · exact then_error.2 (finishes_error.2 trivial)
  refine then_ok.2 (ensures_bind (ensures_orThrow (ensures_ask trivial ?_)))
  generalize env Call.pageCount s = answered
  obtain ⟨e | count, s⟩ := answered
  · exact then_error.2 (finishes_error.2 trivial)
  have hnext : (policy C config job).next (.begun codec) Call.pageCount (.ok count) =
      if 0 < count ∧ count < 2 ^ 32 ∧ count.toNat ≤ maximum then .pages (.start .engine count.toNat true) else .refused := by
    simp [policy, Phase.next, hmax]
  refine then_ok.2 ?_
  show Ensures _ _ _ ((policy C config job).next (.begun codec) Call.pageCount (.ok count)) _
  rw [hnext]
  refine ensures_bind (ensures_refuse (fun hcount => then_error.2 (finishes_error.2 ?_)) fun hcount => then_ok.2 ?_)
  · rw [if_neg (by omega)]
    exact trivial
  · rw [if_pos (by omega)]
    refine ensures_pure (finishes_ok.2 ⟨rfl, ?_, rfl⟩)
    show count.toNat < 2 ^ 32
    omega

theorem openWalSnapshot_ensures (hwal : job.wal = true) (hconfig : job.cipher.config = .ok config) (s : σ) :
    Ensures (policy C config job) (openWalSnapshot C env job.inputPath job.cipher job.passphraseFile) s .start
      (Ends fun snapshot phase => snapshot.pageSize = config.pageSize ∧ snapshot.pageCount < 2 ^ 32 ∧
        phase = .pages (.start .engine snapshot.pageCount true)) := by
  unfold openWalSnapshot snapshot
  rw [hconfig]
  refine ensures_bind (ensures_lift (then_ok.2 ?_))
  refine ensures_bind_finishes (ensures_mapError_finishes (openWalInput_ensures C config job env hwal s)) fun input s phase h => ?_
  obtain ⟨found, rfl, hready, hfile⟩ := h
  refine ensures_bind (ensures_orThrow (ensures_ask ⟨rfl, input.path, hready⟩ ?_))
  generalize env (Call.readPassphrase job.passphraseFile) s = answered
  obtain ⟨e | passphrase, s⟩ := answered
  · exact then_error.2 (finishes_error.2 trivial)
  refine then_ok.2 ?_
  have hunlocked : (policy C config job).next (.looking found) (Call.readPassphrase job.passphraseFile) (.ok passphrase) =
      .unlocked ⟨found, input.path, passphrase⟩ := by
    simp [policy, Phase.next, Findings.next, hready.real]
  show Ensures _ _ _ ((policy C config job).next (.looking found) (Call.readPassphrase job.passphraseFile) (.ok passphrase)) _
  rw [hunlocked]
  refine ensures_mapError_finishes (ensures_bind_finishes (openConnection_ensures C config job env hwal
    ⟨found, input.path, passphrase⟩ hfile s) fun maximum s phase h => ?_)
  obtain ⟨codec, rfl, hmax⟩ := h
  exact beginSnapshot_ensures C config job env codec hmax s

/-! ## Going through a snapshot -/

section Snapshot

variable {snapshot : WalSnapshot} (hps : snapshot.pageSize = config.pageSize) (hlt : snapshot.pageCount < 2 ^ 32)
include hps hlt

/-- The engine's next page, where that leaves the policy, and the visit. -/
theorem visitPage_ensures {visit : NonZeroU32 → Bytes → Program Host σ IoError Unit} {pages : List Bytes}
    (hvisit : ∀ pageNo bytes page s, bytes.length = config.pageSize → pageNo.get = pages.length + 1 →
      page = standalonePage pageNo bytes → Ensures (policy C config job) (visit pageNo bytes) s
        (.pages { (Paging.start .engine snapshot.pageCount true).reached job pages with pages := pages ++ [page] })
        fun ended _ phase =>
          (ended = .ok () → phase = .pages ((Paging.start .engine snapshot.pageCount true).reached job (pages ++ [page]))) ∧
          ∀ e, ended = .error e → (Paging.start .engine snapshot.pageCount true).Failed job phase)
    (hpages : pages.length < snapshot.pageCount) (s : σ) :
    Ensures (policy C config job) (visitPage env snapshot visit (pages.length + 1)) s
      (.pages ((Paging.start .engine snapshot.pageCount true).reached job pages)) fun ended _ phase =>
        (∀ a, ended = .ok a → True ∧
          ∃ page, phase = .pages ((Paging.start .engine snapshot.pageCount true).reached job (pages ++ [page]))) ∧
        ∀ e, ended = .error e → (Paging.start .engine snapshot.pageCount true).Failed job phase := by
  unfold visitPage
  rw [NonZeroU32.new_eq_some (Nat.succ_pos pages.length) (by omega)]
  refine ensures_bind (ensures_lift (then_ok.2 ?_))
  refine ensures_bind (ensures_orThrow (ensures_ask ⟨Paging.clear_reached job rfl pages, rfl, hpages, rfl⟩ ?_))
  generalize env (Call.readPage (pages.length + 1)) s = answered
  obtain ⟨e | bytes, s⟩ := answered
  · exact then_error.2 ⟨by simp, fun _ _ => ⟨_, rfl, rfl, rfl, rfl⟩⟩
  refine then_ok.2 (ensures_bind (ensures_refuse (fun hlen => then_error.2 ⟨by simp, fun _ _ => ?_⟩)
    fun hlen => then_ok.2 (ensures_mapError ?_)))
  · -- a page of another length is as good as none
    rw [hps] at hlen
    refine ⟨{ (Paging.start .engine snapshot.pageCount true).reached job pages with intact := false },
      congrArg Phase.pages ?_, rfl, rfl, rfl⟩
    simp only [Paging.next, Paging.selected, if_neg hlen]
    rfl
  have hlen' : bytes.length = config.pageSize := hps ▸ not_not.1 hlen
  -- the policy takes page 1 as standalone, which is how it will be written
  have hnext : ((Paging.start .engine snapshot.pageCount true).reached job pages).next C config
      (Call.readPage (pages.length + 1)) (.ok bytes) =
      { (Paging.start .engine snapshot.pageCount true).reached job pages with
        pages := pages ++ [standalonePage ⟨pages.length + 1, Nat.succ_pos _, by omega⟩ bytes] } := by
    rcases pages with _ | ⟨first, rest⟩ <;>
      simp [Paging.next, Paging.selected, hlen', Paging.reached, standalonePage, Paging.turned]
  show Ensures _ _ _ (Phase.pages (((Paging.start .engine snapshot.pageCount true).reached job pages).next C config
      (Call.readPage (pages.length + 1)) (.ok bytes))) _
  rw [hnext]
  refine ensures_mono (hvisit ⟨pages.length + 1, Nat.succ_pos _, by omega⟩ bytes _ s hlen' rfl rfl) fun ended s phase h => ?_
  rcases ended with e | _
  · exact ⟨by rintro a ⟨⟩, fun _ _ => h.2 e rfl⟩
  · exact ⟨fun _ _ => ⟨trivial, _, h.1 rfl⟩, by rintro e ⟨⟩⟩

/-- The traversal hands each page to a visit that deals with it, and closes the transaction. -/
theorem visitPages_ensures {visit : NonZeroU32 → Bytes → Program Host σ IoError Unit}
    (hvisit : ∀ pages pageNo bytes page s, bytes.length = config.pageSize → pageNo.get = pages.length + 1 →
      page = standalonePage pageNo bytes → Ensures (policy C config job) (visit pageNo bytes) s
        (.pages { (Paging.start .engine snapshot.pageCount true).reached job pages with pages := pages ++ [page] })
        fun ended _ phase =>
          (ended = .ok () → phase = .pages ((Paging.start .engine snapshot.pageCount true).reached job (pages ++ [page]))) ∧
          ∀ e, ended = .error e → (Paging.start .engine snapshot.pageCount true).Failed job phase) (s : σ) :
    Ensures (policy C config job) (visitPages env snapshot visit) s
      (.pages ((Paging.start .engine snapshot.pageCount true).reached job []))
      (Through job (.start .engine snapshot.pageCount false)) := by
  unfold visitPages dropSnapshot
  refine ensures_bind (ensures_outcome ?_)
  refine ensures_mono (pages_ensures C config job (.start .engine snapshot.pageCount true) (fun _ => True)
    (fun pages _ s _ hpages => visitPage_ensures C config job env hps hlt (hvisit pages) hpages s) trivial s)
    fun ended s phase h => then_ok.2 ?_
  rw [bind_assoc]
  rcases ended with e | _
  · obtain ⟨paging, rfl, hintact, hbegun, hdest⟩ := h.2 e rfl
    refine ensures_bind (ensures_ask ⟨hbegun, .inl hintact⟩ (then_ok.2 ?_))
    rw [pure_bind]
    exact ensures_lift ⟨by simp, fun _ _ => ⟨_, rfl, hintact, rfl, hdest⟩⟩
  · obtain ⟨pages, hlen, rfl⟩ := h.1 () rfl
    refine ensures_bind (ensures_ask ⟨rfl, .inr ⟨Paging.clear_reached job rfl pages, hlen⟩⟩ (then_ok.2 ?_))
    rw [pure_bind]
    exact ensures_lift ⟨fun _ _ => ⟨pages, hlen, rfl⟩, by simp⟩

end Snapshot

/-- The bytes of a page as the merged export writes them. -/
theorem standaloneBytes_eq {pageNo : NonZeroU32} {page : Bytes} (hlen : 20 ≤ page.length) :
    (if pageNo.get = 1 then (assign page 18 1).bind fun header => assign header 19 1 else some page) =
      some (standalonePage pageNo page) := by
  unfold standalonePage standalone
  split
  · rw [assign_eq_some (by omega), Option.bind_some, assign_eq_some (by rw [List.length_set]; omega)]
  · rfl

theorem writeSnapshotPage_ensures {path : Path} (houtput : job.output = some path) {count : Nat} {pages : List Bytes}
    {pageNo : NonZeroU32} {bytes page : Bytes} (hlen : bytes.length = config.pageSize)
    (hpage : page = standalonePage pageNo bytes) (s : σ) :
    Ensures (policy C config job) (writeSnapshotPage env path pageNo bytes) s
      (.pages { (Paging.start .engine count true).reached job pages with pages := pages ++ [page] }) fun ended _ phase =>
        (ended = .ok () → phase = .pages ((Paging.start .engine count true).reached job (pages ++ [page]))) ∧
        ∀ e, ended = .error e → (Paging.start .engine count true).Failed job phase := by
  subst hpage
  have hps := config.pageSize_ge
  unfold writeSnapshotPage
  refine ensures_bind (ensures_panicking (standaloneBytes_eq (by omega)) (then_ok.2 (ensures_orThrow (ensures_ask ?_ ?_))))
  · simp [policy, Phase.allows, Paging.allows, Paging.reached, Paging.start, Job.during, houtput]
  generalize env (Call.writeAll (standalonePage pageNo bytes)) s = answered
  obtain ⟨e | _, s⟩ := answered
  · exact ⟨by rintro ⟨⟩, fun _ _ => ⟨_, rfl, rfl, rfl, rfl⟩⟩
  · exact ⟨fun _ => by simp [policy, Phase.next, Paging.next, Paging.reached, houtput], by rintro e ⟨⟩⟩

/-! ## The commands -/

section Verify

variable (houtput : job.output = none)
include houtput

/-- `verify` touches no destination. -/
theorem reached_nil_of_verify (origin : Origin) (count : Nat) (begun : Bool) :
    (Paging.start origin count begun).reached job [] = .start origin count begun := by
  simp [Paging.reached, Paging.start, Job.during, houtput]

theorem final_of_verify {origin : Origin} {count : Nat} {α ε : Type} {ended : Except ε α} {s : σ} {phase : Phase}
    (h : Through job (.start origin count false) ended s phase) :
    (∀ a, ended = .ok a → (Paging.start origin count false).Final job phase) ∧ ∀ e, ended = .error e → phase.Over := by
  constructor
  · intro a hended
    obtain ⟨pages, hlen, rfl⟩ := h.1 a hended
    exact ⟨_, rfl, rfl, rfl, rfl, by simp [Paging.reached, Job.during, houtput], rfl, hlen⟩
  · intro e hended
    obtain ⟨paging, rfl, -, hbegun, hdest⟩ := h.2 e hended
    exact ⟨by simp [hdest, Job.during, houtput], hbegun⟩

theorem verify_ensures (hconfig : job.cipher.config = .ok config) (s : σ) :
    Ensures (policy C config job) (verify C env ⟨job.cipher, job.passphraseFile, job.wal, job.inputPath⟩) s .start
      (Ends fun _ phase => phase.Over ∧ phase.Done) := by
  unfold verify
  rcases hwal : job.wal with _ | _
  · simp only [Bool.false_eq_true, if_false]
    refine ensures_bind_finishes (openReader_ensures C config job env hwal hconfig s) fun reader s phase h => ?_
    obtain ⟨hsource, hps, rfl⟩ := h
    rw [← reached_nil_of_verify job houtput]
    refine ensures_bind (ensures_mono (verifyPages_ensures C config job env hsource hps hwal houtput s) fun ended s phase h => ?_)
    obtain ⟨hfinal, hover⟩ := final_of_verify job houtput h
    rcases ended with e | scratch
    · exact then_error.2 (finishes_error.2 (hover e rfl))
    · exact then_ok.2 (print_ensures C config job env (hfinal scratch rfl) (by simp [Job.report, houtput, hwal, Paging.start]) s)
  · simp only [if_true]
    refine ensures_bind_finishes (openWalSnapshot_ensures C config job env hwal hconfig s) fun snapshot s phase h => ?_
    obtain ⟨hps, hlt, rfl⟩ := h
    rw [← reached_nil_of_verify job houtput]
    refine ensures_bind (ensures_mapError (ensures_mono (visitPages_ensures C config job env hps hlt
      (fun pages pageNo bytes page s _ _ _ => ensures_pure ⟨fun _ => ?_, by simp⟩) s) fun ended s phase h => ?_))
    · simp [Paging.reached, houtput]
    obtain ⟨hfinal, hover⟩ := final_of_verify job houtput h
    rcases ended with e | _
    · exact then_error.2 (finishes_error.2 (hover e rfl))
    · exact then_ok.2 (print_ensures C config job env (hfinal () rfl) (by simp [Job.report, houtput, hwal, Paging.start]) s)

end Verify

section Export

variable {outputPath : Path} (houtput : job.output = some outputPath)
include houtput

theorem export_ensures (hconfig : job.cipher.config = .ok config) (s : σ) :
    Ensures (policy C config job) (exportCommand C env ⟨job.cipher, job.passphraseFile, job.wal, job.inputPath, outputPath⟩)
      s .start (Ends fun _ phase => phase.Over ∧ phase.Done) := by
  unfold exportCommand
  rcases hwal : job.wal with _ | _
  · simp only [Bool.false_eq_true, if_false]
    refine ensures_bind_finishes (openReader_ensures C config job env hwal hconfig s) fun reader s phase h => ?_
    obtain ⟨hsource, hps, rfl⟩ := h
    have hwrite := writePlaintextFile_ensures C config job env houtput
      (.start (.file reader.decryptor) reader.pageCount false) ⟨_, _, _, rfl⟩
      (do
        let _ ← (List.range' 1 reader.pageCount).foldlM (writeReaderPage C env outputPath reader)
          (List.replicate reader.pageSize 0)
        return ()) (return ()) (fun s => ?_) (fun s => ensures_pure (finishes_ok.2 ⟨by simp [Paging.start], rfl⟩)) s
    · exact ensures_bind_finishes hwrite fun _ s phase h =>
        print_ensures C config job env h (by simp [Job.report, houtput, hwal, Paging.start]) s
    · refine ensures_bind (ensures_mono (writeReaderPages_ensures C config job env hsource hps hwal houtput s)
        fun ended s phase h => ?_)
      rcases ended with e | scratch
      · exact then_error.2 ⟨by simp, fun _ _ => h.2 e rfl⟩
      · exact then_ok.2 (ensures_pure ⟨fun _ _ => h.1 scratch rfl, by simp⟩)
  · simp only [if_true]
    refine ensures_bind_finishes (openWalSnapshot_ensures C config job env hwal hconfig s) fun snapshot s phase h => ?_
    obtain ⟨hps, hlt, rfl⟩ := h
    have hwrite := writePlaintextFile_ensures C config job env houtput
      (.start .engine snapshot.pageCount true) ⟨_, _, _, rfl⟩
      (mapError .visit (visitPages env snapshot (writeSnapshotPage env outputPath))) (dropSnapshot env) (fun s => ?_) (fun s => ?_) s
    · exact ensures_bind_finishes hwrite fun _ s phase h =>
        print_ensures C config job env h (by simp [Job.report, houtput, hwal, Paging.start]) s
    · refine ensures_mapError (ensures_mono (visitPages_ensures C config job env hps hlt
        (fun pages pageNo bytes page s hlen _ hpage =>
          writeSnapshotPage_ensures C config job env houtput hlen hpage s) s) fun ended s phase h => ?_)
      rcases ended with e | _
      · exact ⟨by rintro a ⟨⟩, fun _ _ => h.2 e rfl⟩
      · exact ⟨fun _ _ => h.1 () rfl, by rintro e ⟨⟩⟩
    · -- a snapshot whose file was not created is dropped with its transaction
      unfold dropSnapshot
      exact ensures_bind (ensures_ask ⟨rfl, .inl rfl⟩ (then_ok.2 (ensures_pure (finishes_ok.2 ⟨by simp [Paging.next, Paging.start], rfl⟩))))

end Export

theorem job_ensures (hconfig : job.cipher.config = .ok config) (s : σ) :
    Ensures (policy C config job) (run C env job.command) s .start (Ends fun _ phase => phase.Over ∧ phase.Done) := by
  unfold Job.command
  rcases houtput : job.output with _ | outputPath
  · exact verify_ensures C config job env houtput hconfig s
  · exact export_ensures C config job env houtput hconfig s

/-- Options that make no configuration end a job before its first call. -/
theorem run_of_config_error {e : CliError} (hconfig : job.cipher.config = .error e) (start : Run Host σ) :
    run C env job.command start = some (.error e, start) := by
  have hreader : openReader C env job.inputPath job.cipher job.passphraseFile start = some (.error e, start) := by
    unfold openReader
    exact bind_of_error (congrArg (fun result => some (result, start)) hconfig)
  have hsnapshot : openWalSnapshot C env job.inputPath job.cipher job.passphraseFile start = some (.error e, start) := by
    unfold openWalSnapshot
    exact bind_of_error (congrArg (fun result => some (result, start)) hconfig)
  unfold Job.command
  rcases job.output with _ | outputPath
  · show verify C env _ start = _
    unfold verify
    dsimp only
    split
    · exact bind_of_error hsnapshot
    · exact bind_of_error hreader
  · show exportCommand C env _ start = _
    unfold exportCommand
    dsimp only
    split
    · exact bind_of_error hsnapshot
    · exact bind_of_error hreader

/-- A run of `verify` or `export`, main-only or with `--wal`, in any environment, whatever it answers and however it
changes between two calls: the run returns, every call is one the policy allows at that point, no file it created
stays behind unsynced without a removal being tried, and a transaction it began has had its `ROLLBACK`, unless its page
count was refused, and then the run fails; it ends well only when its report is out. Without a configuration it makes
no call. -/
theorem run_obeys_policy (s : σ) : ∃ ended s' events,
    run C env job.command (s, []) = some (ended, (s', events)) ∧
    (∀ e, job.cipher.config = .error e → ended = .error e ∧ events = []) ∧
    ∀ config, job.cipher.config = .ok config →
      (policy C config job).Obeys .start events ∧
      (((policy C config job).after .start events).Settled ∨
        (policy C config job).after .start events = .refused ∧ ended ≠ .ok ()) ∧
      (ended = .ok () → ((policy C config job).after .start events).Done) := by
  rcases hconfig : job.cipher.config with e | config
  · refine ⟨.error e, s, [], run_of_config_error C job env hconfig _, fun e' he' => ?_, by rintro config ⟨⟩⟩
    cases he'
    exact ⟨rfl, rfl⟩
  obtain ⟨ended, s', events, hrun, hobeys, hend⟩ := job_ensures C config job env hconfig s []
  refine ⟨ended, s', events, hrun, by rintro e ⟨⟩, fun config' h => ?_⟩
  cases h
  rcases ended with e | _
  · refine ⟨hobeys, ?_, by rintro ⟨⟩⟩
    exact (Phase.over_iff.1 (finishes_error.1 hend)).imp_right fun hrefused => ⟨hrefused, by rintro ⟨⟩⟩
  · obtain ⟨hover, hdone⟩ := finishes_ok.1 hend
    refine ⟨hobeys, .inl ((Phase.over_iff.1 hover).resolve_right fun hrefused => ?_), fun _ => hdone⟩
    rw [hrefused] at hdone
    exact hdone

end Compliance

end Veilite.Cli.Stepwise

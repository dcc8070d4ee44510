/-
What a refusal says. When page 1 does not authenticate, because the passphrase is wrong or because the page is not the
one that was written, a run ends in one way: it shows neither what the passphrase was nor what the file holds, only how
long the file is.
-/
import Veilite.Core.Authenticity
import Veilite.Cli.Preflight
import Veilite.Cli.Agreement

namespace Veilite.Cli

open Buffer Veilite.Core Traverse Turso

section Refusal

variable (C : Primitives) (world : World) (cipher : CipherArgs) (passphraseFile : Option Path) (inputPath : Path)

/-- The input is a file of this size, a nonempty passphrase is given, and page 1 does not authenticate under the key of
the two. -/
def Refused (size : Nat) : Prop :=
  ∃ passphrase, world.passphrase passphraseFile = .ok passphrase ∧ passphrase ≠ [] ∧
    ∀ config resolved, cipher.config = .ok config → world.fs.canonicalize inputPath = .ok resolved →
      ∃ content, world.fs.openFile resolved = .ok (FileSource content) ∧ content.length = size ∧
        ∀ salt : Block, salt.toList = content.take 16 →
          ¬ PageDecryptor.Authentic C ⟨config, .derive C config passphrase salt⟩ .min (content.take config.pageSize)

/-! ## The length -/

/-- What the checks of the physical length say. -/
def lengthError (config : CipherConfig) (size : Nat) : Option (ReaderError IoError) :=
  if size = 0 then some .emptyFile
  else if size < config.pageSize then some (.fileTooSmall size config.pageSize)
  else if size % config.pageSize ≠ 0 then some (.invalidFileSize size config.pageSize)
  else if size / config.pageSize < 2 ^ 32 then none
  else some (.tooManyPages (size / config.pageSize))

theorem lengthError_eq_none {config : CipherConfig} {size : Nat} (h : lengthError config size = none) :
    ∃ count, size = count * config.pageSize ∧ 0 < count ∧ count < 2 ^ 32 := by
  unfold lengthError at h
  split at h
  · cases h
  split at h
  · cases h
  split at h
  · cases h
  split at h
  · rename_i hpos hge hmul hlt
    have hdiv : size / config.pageSize * config.pageSize = size := Nat.div_mul_cancel (Nat.dvd_of_mod_eq_zero (not_not.1 hmul))
    exact ⟨size / config.pageSize, hdiv.symm, Nat.div_pos (by omega) config.pageSize_pos, hlt⟩
  · cases h

theorem open_of_lengthError {config : CipherConfig} {content : Bytes} {e : ReaderError IoError}
    (h : lengthError config content.length = some e) (passphrase : Bytes) :
    (SqlCipherReader.open C (FileSource content) config passphrase ()).1 = .error e := by
  have hlen : (FileSource content).len () = (.ok content.length, ()) := rfl
  unfold SqlCipherReader.open
  rw [hlen]
  unfold lengthError at h
  dsimp only
  split at h
  · cases h
    rw [dif_pos ‹_›]
  rw [dif_neg ‹_›]
  split at h
  · cases h
    rw [dif_pos ‹_›]
  rw [dif_neg ‹_›]
  split at h
  · cases h
    rw [dif_pos ‹_›]
  rw [dif_neg ‹_›]
  split at h
  · cases h
  · cases h
    rw [dif_neg ‹_›]

theorem openCodec_of_lengthError {fs : FsView} {resolved : Path} {config : CipherConfig} {content passphrase : Bytes}
    {e : ReaderError IoError} (hne : passphrase ≠ []) (hutf8 : toStr resolved ≠ none)
    (hopen : fs.openFile resolved = .ok (FileSource content)) (h : lengthError config content.length = some e)
    (walPages : Option Nat) : openCodec C fs resolved config passphrase walPages = some (.error (.source e)) := by
  obtain ⟨path, hpath⟩ := Option.ne_none_iff_exists'.1 hutf8
  have hlen : ((FileSource content).len ()).1 = .ok content.length := rfl
  unfold openCodec
  rw [if_neg hne, hpath]
  simp only [hopen, hlen]
  unfold lengthError at h
  split at h
  · cases h
    rw [if_pos ‹_›]
  rw [if_neg ‹_›]
  split at h
  · cases h
    rw [if_pos ‹_›]
  rw [if_neg ‹_›]
  split at h
  · cases h
    rw [if_pos ‹_›]
  rw [if_neg ‹_›]
  split at h
  · cases h
  · cases h
    rename_i hcount
    have hnone : tryFrom 32 (content.length / config.pageSize) = none := if_neg hcount
    rw [hnone]

/-! ## Page 1 -/

variable {C world cipher passphraseFile inputPath}

/-- What is said of a page 1 that does not authenticate. -/
def firstPageError : DecryptError := .authenticationFailed NonZeroU32.min.get

/-- `open` does not look at page 1; the first page read from the reader fails. -/
theorem open_of_not_authentic {config : CipherConfig} {content passphrase : Bytes} (hne : passphrase ≠ [])
    (hlength : lengthError config content.length = none)
    (hpage : ∀ salt : Block, salt.toList = content.take 16 →
      ¬ PageDecryptor.Authentic C ⟨config, .derive C config passphrase salt⟩ .min (content.take config.pageSize)) :
    ∃ reader, (SqlCipherReader.open C (FileSource content) config passphrase ()).1 = .ok reader ∧
      readerPage C reader .min = .error (.reader (.decrypt firstPageError)) := by
  obtain ⟨count, hlen, hpos, hlt⟩ := lengthError_eq_none hlength
  have hps := config.pageSize_ge
  have hle := Nat.mul_le_mul_right config.pageSize hpos
  have htake : (content.take 16).length = 16 := by
    rw [List.length_take]
    omega
  have hsalt : (⟨content.take 16, htake⟩ : Block).toList = content.take 16 := rfl
  obtain ⟨reader, hopen, hsource, hdecryptor, hcount⟩ := SqlCipherReader.open_file C hne hlen hpos hlt hsalt
  have hfirst : (content.take config.pageSize).length = config.pageSize := by
    rw [List.length_take]
    omega
  refine ⟨reader, by rw [hopen], ?_⟩
  unfold readerPage
  rw [reader.fetchPage_of_open C hsource hdecryptor (hcount ▸ hlen) (hcount ▸ hpos), pageOf_min,
    PageDecryptor.openPage_of_not_authentic hfirst (hpage ⟨content.take 16, htake⟩ hsalt)]
  rfl

theorem openCodec_of_not_authentic {fs : FsView} {resolved : Path} {config : CipherConfig} {content passphrase : Bytes}
    (hne : passphrase ≠ []) (hutf8 : toStr resolved ≠ none) (hopen : fs.openFile resolved = .ok (FileSource content))
    (hlength : lengthError config content.length = none)
    (hpage : ∀ salt : Block, salt.toList = content.take 16 →
      ¬ PageDecryptor.Authentic C ⟨config, .derive C config passphrase salt⟩ .min (content.take config.pageSize))
    (walPages : Option Nat) :
    openCodec C fs resolved config passphrase walPages = some (.error (.decrypt firstPageError)) := by
  obtain ⟨path, hpath⟩ := Option.ne_none_iff_exists'.1 hutf8
  obtain ⟨count, hlen, hpos, hlt⟩ := lengthError_eq_none hlength
  have hps := config.pageSize_ge
  have hle := Nat.mul_le_mul_right config.pageSize hpos
  have hdiv : content.length / config.pageSize = count := by rw [hlen, Nat.mul_div_cancel _ config.pageSize_pos]
  have hmod : content.length % config.pageSize = 0 := by rw [hlen, Nat.mul_mod_left]
  have hsize : ((FileSource content).len ()).1 = .ok content.length := rfl
  have hread : (FileSource content).readExactAt 0 (List.replicate config.pageSize 0) () =
      (⟨.ok (), content.take config.pageSize⟩, ()) := by
    rw [FileSource.readExactAt_eq (by rw [List.length_replicate]; omega), List.length_replicate]
    rfl
  have hfirst : (content.take config.pageSize).length = config.pageSize := by
    rw [List.length_take]
    omega
  have htake : (content.take 16).length = 16 := by
    rw [List.length_take]
    omega
  have hslice : slice (content.take config.pageSize) 0 16 = some (content.take 16) := by
    rw [slice_eq_some (Nat.zero_le _) (by omega), List.drop_zero, List.take_take, Nat.sub_zero, Nat.min_eq_left (by omega)]
  have hnew : PageDecryptor.new C config passphrase ⟨content.take 16, htake⟩ =
      .ok ⟨config, .derive C config passphrase ⟨content.take 16, htake⟩⟩ :=
    PageDecryptor.new_eq_ok_iff.2 ⟨hne, rfl⟩
  -- every check before the HMAC passes
  unfold openCodec
  rw [if_neg hne, hpath]
  simp only [hopen, hsize]
  rw [if_neg (by omega), if_neg (by omega), if_neg (by simp [hmod]), hdiv, tryFrom_eq_some hlt]
  simp only [hread, hslice, Option.bind_eq_bind, Option.bind_some, Arr.ofList_eq_some htake, hnew,
    PageDecryptor.decryptPageInPlace_eq]
  rw [PageDecryptor.openPage_of_not_authentic hfirst (hpage ⟨content.take 16, htake⟩ rfl)]
  rfl

/-! ## The commands -/

variable (world cipher inputPath)

/-- How a refused main-only run gets to its end: an error before page 1, or that of page 1. -/
def refusal (size : Nat) : Except CliError CliError := do
  let config ← cipher.config
  let _ ← (mainPreflight world.fs inputPath).mapError .io
  match lengthError config size with
  | some e => throw (.reader e)
  | none => return .reader (.decrypt firstPageError)

/-- How a refused run with `--wal` ends. -/
def walRefusal (size : Nat) : CliError :=
  match (do
    let config ← cipher.config
    let input ← (WalInput.open world.fs inputPath).mapError .openDatabase
    return (config, input) : Except CliError (CipherConfig × WalInput)) with
  | .error e => e
  | .ok (config, _) => match lengthError config size with
    | some e => .openDatabase (.source e)
    | none => .openDatabase (.decrypt firstPageError)

/-- How a refused `verify` ends. -/
def refusedVerify (wal : Bool) (size : Nat) : CliError :=
  if wal then walRefusal world cipher inputPath size
  else match refusal world cipher inputPath size with
    | .error e => e
    | .ok e => e

/-- How a refused `export` ends, and the entry it leaves. -/
def refusedExport (wal : Bool) (outputPath : Path) (size : Nat) : Option (Except CliError Unit × Option Entry) :=
  if wal then some (.error (walRefusal world cipher inputPath size), world.destination)
  else match refusal world cipher inputPath size with
    | .error e => some (.error e, world.destination)
    | .ok e => writePlaintextFile world.faults outputPath (fun file => some (.error e, file)) world.destination

variable {world cipher inputPath} {size : Nat}

theorem Refused.openReader (h : Refused C world cipher passphraseFile inputPath size) :
    (∃ e, refusal world cipher inputPath size = .error e ∧
        openReader C world inputPath cipher passphraseFile = .error e) ∨
      ∃ e reader, refusal world cipher inputPath size = .ok e ∧
        openReader C world inputPath cipher passphraseFile = .ok reader ∧ readerPage C reader .min = .error e := by
  obtain ⟨passphrase, hpassphrase, hne, hfile⟩ := h
  rw [openReader_eq]
  unfold refusal
  rcases hconfig : cipher.config with e | config
  · exact .inl ⟨e, rfl, rfl⟩
  rcases hpreflight : mainPreflight world.fs inputPath with e | resolved
  · exact .inl ⟨.io e, by simp [Except.mapError, bind, Except.bind], by simp [Except.mapError, bind, Except.bind]⟩
  have hcanonical := (mainPreflight_eq_ok_iff.1 hpreflight).2.1
  obtain ⟨content, hopen, rfl, hpage⟩ := hfile config resolved hconfig hcanonical
  have hsource : openEncryptedDatabase world resolved = .ok (FileSource content) := by
    unfold openEncryptedDatabase
    rw [hopen]
    rfl
  rcases hlength : lengthError config content.length with _ | e
  · right
    obtain ⟨reader, hreader, hfirst⟩ := open_of_not_authentic hne hlength hpage
    exact ⟨_, reader, by simp [Except.mapError, bind, Except.bind, pure, Except.pure, hlength],
      by simp [Except.mapError, bind, Except.bind, hpassphrase, hsource, hreader], hfirst⟩
  · left
    have hreader := open_of_lengthError C hlength passphrase
    exact ⟨.reader e, by simp [Except.mapError, bind, Except.bind, hlength, throw, throwThe, MonadExceptOf.throw],
      by simp [Except.mapError, bind, Except.bind, hpassphrase, hsource, hreader]⟩

theorem Refused.openWalSnapshot (h : Refused C world cipher passphraseFile inputPath size) :
    openWalSnapshot C world inputPath cipher passphraseFile = some (.error (walRefusal world cipher inputPath size)) := by
  obtain ⟨passphrase, hpassphrase, hne, hfile⟩ := h
  unfold Cli.openWalSnapshot walRefusal
  rcases hconfig : cipher.config with e | config
  · rfl
  rcases hinput : WalInput.open world.fs inputPath with e | input
  · rfl
  obtain ⟨-, hcanonical, -, -, -, -, hutf8⟩ := walInput_open_eq_ok_iff.1 hinput
  obtain ⟨content, hopen, rfl, hpage⟩ := hfile config input.path hconfig hcanonical
  simp only [hpassphrase, Except.mapError, bind, Except.bind, pure, Except.pure]
  unfold WalInput.snapshot WalInput.connect openConnection
  rcases hlength : lengthError config content.length with _ | e
  · rw [openCodec_of_not_authentic hne hutf8 hopen hlength hpage]
    rfl
  · rw [openCodec_of_lengthError C hne hutf8 hopen hlength]
    rfl

theorem pageNumbers_eq_cons {count : Nat} (hpos : 0 < count) : ∃ rest, pageNumbers count = .min :: rest := by
  obtain ⟨n, rfl⟩ := Nat.exists_eq_succ_of_ne_zero (Nat.ne_of_gt hpos)
  exact ⟨(List.range' 2 n).filterMap NonZeroU32.new, rfl⟩

/-- A reader whose page 1 fails delivers nothing. -/
theorem deliver_of_first {reader : SqlCipherReader Unit IoError} {e : CliError} (h : readerPage C reader .min = .error e)
    {σ : Type} (sink : NonZeroU32 → Bytes → σ → Option (Except CliError Unit × σ)) (s : σ) :
    forEach (deliver (readerPage C reader) sink) (pageNumbers reader.pageCount) s = some (.error e, s) := by
  obtain ⟨rest, hrest⟩ := pageNumbers_eq_cons reader.pageCount_pos
  rw [hrest, forEach, deliver, h]

theorem readAll_of_first {reader : SqlCipherReader Unit IoError} {e : CliError} (h : readerPage C reader .min = .error e) :
    readAll C reader = .error e := by
  obtain ⟨rest, hrest⟩ := pageNumbers_eq_cons reader.pageCount_pos
  unfold readAll
  rw [hrest, List.mapM_cons, h]
  rfl

/-- A file that nothing could be written to is not kept. -/
theorem writePlaintextFile_of_error (faults : Faults) (path : Path) (e : CliError) (entry : Option Entry) :
    ∃ e' entry', writePlaintextFile faults path (fun file => some (.error e, file)) entry = some (.error e', entry') := by
  unfold writePlaintextFile
  rcases createNew faults entry with source | file
  · exact ⟨_, _, rfl⟩
  · exact ⟨_, _, rfl⟩

theorem Refused.verify (h : Refused C world cipher passphraseFile inputPath size) (wal : Bool) :
    verify C world ⟨cipher, passphraseFile, wal, inputPath⟩ =
      some (.error (refusedVerify world cipher inputPath wal size)) := by
  unfold refusedVerify
  cases wal with
  | true =>
    unfold Cli.verify
    rw [if_pos rfl]
    dsimp only
    rw [h.openWalSnapshot]
    rfl
  | false =>
    rw [verify_eq]
    rcases h.openReader with ⟨e, hrefusal, hopen⟩ | ⟨e, reader, hrefusal, hopen, hfirst⟩
    · rw [hopen, hrefusal]
      rfl
    · rw [hopen, hrefusal]
      simp [Except.bind, readAll_of_first hfirst]

theorem Refused.exportCommand (h : Refused C world cipher passphraseFile inputPath size) (wal : Bool) (outputPath : Path) :
    exportCommand C world ⟨cipher, passphraseFile, wal, inputPath, outputPath⟩ =
      refusedExport world cipher inputPath wal outputPath size := by
  unfold refusedExport Cli.exportCommand
  cases wal with
  | true =>
    rw [if_pos rfl, if_pos rfl]
    dsimp only
    rw [h.openWalSnapshot]
    rfl
  | false =>
    rw [if_neg Bool.false_ne_true, if_neg Bool.false_ne_true]
    dsimp only
    rcases h.openReader with ⟨e, hrefusal, hopen⟩ | ⟨e, reader, hrefusal, hopen, hfirst⟩
    · rw [hopen, hrefusal]
    · rw [hopen, hrefusal]
      have hwrite : forEach (deliver (readerPage C reader) (writePage world.faults outputPath)) (pageNumbers reader.pageCount) =
          fun file => some (.error e, file) := funext fun file => deliver_of_first hfirst _ file
      dsimp only
      rw [writeDecryptedDatabase_eq, hwrite]
      obtain ⟨e', entry', hend⟩ := writePlaintextFile_of_error world.faults outputPath e world.destination
      rw [hend]
      rfl

/-- Refusals are alike. Whatever two passphrases are given, neither of them empty, and whatever two files of one length
are there, when page 1 of neither authenticates, `verify` and `export`, main-only or with `--wal`, fail with one error
and leave one entry at the destination. -/
theorem refusals_are_alike (openFile : Path → Except IoError (ReadAt Unit IoError))
    (passphrase : Option Path → Except IoError Bytes) (h : Refused C world cipher passphraseFile inputPath size)
    (h' : Refused C { world with fs := { world.fs with openFile }, passphrase } cipher passphraseFile inputPath size)
    (wal : Bool) (outputPath : Path) :
    (∃ e, verify C world ⟨cipher, passphraseFile, wal, inputPath⟩ = some (.error e) ∧
      verify C { world with fs := { world.fs with openFile }, passphrase } ⟨cipher, passphraseFile, wal, inputPath⟩ =
        some (.error e)) ∧
    ∃ e entry, exportCommand C world ⟨cipher, passphraseFile, wal, inputPath, outputPath⟩ = some (.error e, entry) ∧
      exportCommand C { world with fs := { world.fs with openFile }, passphrase }
        ⟨cipher, passphraseFile, wal, inputPath, outputPath⟩ = some (.error e, entry) := by
  refine ⟨⟨_, h.verify wal, h'.verify wal⟩, ?_⟩
  have hsame : refusedExport { world with fs := { world.fs with openFile }, passphrase } cipher inputPath wal outputPath size =
      refusedExport world cipher inputPath wal outputPath size := rfl
  rw [h.exportCommand wal outputPath, h'.exportCommand wal outputPath, hsame]
  unfold refusedExport
  split
  · exact ⟨_, _, rfl, rfl⟩
  · split
    · exact ⟨_, _, rfl, rfl⟩
    · obtain ⟨e', entry', hend⟩ := writePlaintextFile_of_error world.faults outputPath _ world.destination
      exact ⟨e', entry', hend, hend⟩

end Refusal

/-! ## Two files that are no databases -/

/-- 1024 times the byte. -/
def noDatabase (x : UInt8) : Bytes := List.replicate 1024 x

/-- Their page 1 has no tag the sample's HMAC gives. -/
theorem not_authentic_noDatabase {x : UInt8} (hx : x ≠ 0x2d) (keys : KeyMaterial) :
    ¬ PageDecryptor.Authentic sample ⟨sampleConfig, keys⟩ .min ((noDatabase x).take sampleConfig.pageSize) := by
  intro h
  have htag := congrArg List.head? h.tag
  have hfirst : (sampleConfig.tagOf ((noDatabase x).take sampleConfig.pageSize)).head? = some x := by
    unfold CipherConfig.tagOf noDatabase
    rw [List.take_replicate, List.drop_replicate, List.take_replicate, List.head?_replicate]
    exact if_neg (by decide)
  rw [hfirst] at htag
  exact hx (Option.some.inj htag).symm

theorem refused_noDatabase {world : World} {passphrase : Bytes} {x : UInt8} (hx : x ≠ 0x2d)
    (hpassphrase : world.passphrase none = .ok passphrase) (hne : passphrase ≠ [])
    (hcanonical : world.fs.canonicalize samplePath = .ok samplePath)
    (hopen : world.fs.openFile samplePath = .ok (FileSource (noDatabase x))) :
    Refused sample world sampleCipher none samplePath 1024 := by
  refine ⟨passphrase, hpassphrase, hne, fun config resolved hconfig hresolved => ?_⟩
  rw [sampleCipher_config] at hconfig
  cases hconfig
  rw [hcanonical] at hresolved
  cases hresolved
  exact ⟨noDatabase x, hopen, List.length_replicate, fun salt _ => not_authentic_noDatabase hx _⟩

/-- One is refused with the sample's passphrase, the other with another. -/
theorem refusals_are_alike_sample : ∃ e, verify sample (.of (noDatabase 0)) ⟨sampleCipher, none, false, samplePath⟩ =
      some (.error e) ∧
    verify sample { World.of (noDatabase 0) with
      fs := { (World.of (noDatabase 0)).fs with openFile := (World.of (noDatabase 1)).fs.openFile }
      passphrase := fun _ => .ok [0] } ⟨sampleCipher, none, false, samplePath⟩ = some (.error e) := by
  have h : Refused sample (.of (noDatabase 0)) sampleCipher none samplePath 1024 :=
    refused_noDatabase (by decide) rfl (by decide) rfl rfl
  have h' : Refused sample { World.of (noDatabase 0) with
      fs := { (World.of (noDatabase 0)).fs with openFile := (World.of (noDatabase 1)).fs.openFile }
      passphrase := fun _ => .ok [0] } sampleCipher none samplePath 1024 :=
    refused_noDatabase (by decide) rfl (by decide) rfl rfl
  exact (refusals_are_alike _ _ h h' false sampleOutput).1

end Veilite.Cli

/-
What an open establishes: page 1 of the main file authenticates under the caller's own key, and the codec
is the one of that key and that file's salt. Nothing else gets past the first half of `open_connection`.
-/
import Veilite.Turso.Snapshot

namespace Veilite.Turso

open Buffer Veilite.Core

section Open

variable (C : Primitives) (fs : FsView) (resolved : Path) (config : CipherConfig) (passphrase : Bytes)

/-- The file at `resolved` is a source of whole pages, and its page 1 opens under the key of the passphrase
and its own salt. -/
structure Authenticates (source : ReadAt Unit IoError) (size : Nat) (salt : Block) : Prop where
  nonempty : passphrase ≠ []
  utf8 : toStr resolved = some resolved.bytes
  opened : fs.openFile resolved = .ok source
  len : (source.len ()).1 = .ok size
  positive : 0 < size
  whole : config.pageSize ∣ size
  count : size / config.pageSize < 2 ^ 32
  page : ∃ first plain, (source.readExactAt 0 (List.replicate config.pageSize 0) ()).1 = ⟨.ok (), first⟩ ∧
    salt.toList = first.take 16 ∧
    PageDecryptor.decryptPageInPlace C ⟨config, .derive C config passphrase salt⟩ .min first = some ⟨.ok (), plain⟩

theorem toStr_eq {path : Path} {bytes : Bytes} (h : toStr path = some bytes) : bytes = path.bytes := by
  unfold toStr at h
  split at h
  · exact (Option.some.inj h).symm
  · cases h

variable (walPages : Option Nat)

/-- The codec and the bound of an authenticated main file. -/
def codecOf (size : Nat) (salt : Block) : SqlCipherCodec × Nat :=
  (.new C ⟨config, .derive C config passphrase salt⟩ config salt (size / config.pageSize) walPages
      (walPages.map fun _ => resolved.bytes),
    saturatingAdd 32 (size / config.pageSize) (walPages.getD 0))

/-- An authenticated main file gets its codec. -/
theorem openCodec_of_authenticates {source : ReadAt Unit IoError} {size : Nat} {salt : Block}
    (h : Authenticates C fs resolved config passphrase source size salt) :
    openCodec C fs resolved config passphrase walPages =
      some (.ok (codecOf C resolved config passphrase walPages size salt)) := by
  obtain ⟨first, plain, hread, hsalt, hpage⟩ := h.page
  have hps := config.pageSize_ge
  have hfirst : first.length = config.pageSize := by
    have := source.length_readExactAt 0 (List.replicate config.pageSize 0) ()
    rwa [hread, List.length_replicate] at this
  have hle := Nat.le_of_dvd h.positive h.whole
  have hpos := h.positive
  have hslice : slice first 0 16 = some salt.toList := by
    rw [slice_eq_some (Nat.zero_le _) (by omega), hsalt]; rfl
  have hnew : PageDecryptor.new C config passphrase salt = .ok ⟨config, .derive C config passphrase salt⟩ :=
    PageDecryptor.new_eq_ok_iff.2 ⟨h.nonempty, rfl⟩
  unfold openCodec
  rw [if_neg h.nonempty, h.utf8]
  simp only [h.opened, h.len, hread]
  rw [if_neg (by omega), if_neg (by omega), if_neg (by rw [Nat.mod_eq_zero_of_dvd h.whole]; simp), tryFrom_eq_some h.count]
  simp only [hslice, Option.bind_eq_bind, Option.bind_some, Arr.ofList_toList, hnew, hpage]
  rfl

/-- The first half of `open_connection` never panics; when it returns a codec, it authenticated page 1. -/
theorem openCodec_cases :
    (∃ e, openCodec C fs resolved config passphrase walPages = some (.error e)) ∨
      ∃ source size salt, Authenticates C fs resolved config passphrase source size salt := by
  unfold openCodec
  by_cases hne : passphrase = []
  · rw [if_pos hne]
    exact Or.inl ⟨_, rfl⟩
  rw [if_neg hne]
  rcases hstr : toStr resolved with _ | path
  · exact Or.inl ⟨_, rfl⟩
  obtain rfl := toStr_eq hstr
  rcases hopen : fs.openFile resolved with e | source
  · exact Or.inl ⟨_, rfl⟩
  simp only
  rcases hlen : (source.len ()).1 with e | size
  · exact Or.inl ⟨_, rfl⟩
  simp only
  by_cases h0 : size = 0
  · rw [if_pos h0]; exact Or.inl ⟨_, rfl⟩
  by_cases hsmall : size < config.pageSize
  · rw [if_neg h0, if_pos hsmall]; exact Or.inl ⟨_, rfl⟩
  by_cases hmul : size % config.pageSize ≠ 0
  · rw [if_neg h0, if_neg hsmall, if_pos hmul]; exact Or.inl ⟨_, rfl⟩
  -- the length is a positive multiple of the page size from here on
  rw [if_neg h0, if_neg hsmall, if_neg hmul]
  rcases hcount : tryFrom 32 (size / config.pageSize) with _ | pageCount
  · exact Or.inl ⟨_, rfl⟩
  have hlt := (tryFrom_eq_some_iff.1 hcount).1
  have hfirst := source.length_readExactAt 0 (List.replicate config.pageSize 0) ()
  rw [List.length_replicate] at hfirst
  simp only
  generalize hread : (source.readExactAt 0 (List.replicate config.pageSize 0) ()).1 = read at hfirst
  rcases read with ⟨e | _, first⟩
  · exact Or.inl ⟨_, rfl⟩
  have hps := config.pageSize_ge
  simp only at hfirst
  have htake : (first.take 16).length = 16 := by rw [List.length_take]; omega
  simp only [slice_eq_some (l := first) (Nat.zero_le 16) (by omega), Option.bind_eq_bind, Option.bind_some,
    List.drop_zero, Nat.sub_zero, Arr.ofList_eq_some htake, PageDecryptor.decryptPageInPlace_eq]
  rcases hnew : PageDecryptor.new C config passphrase ⟨first.take 16, htake⟩ with e | decoder
  · exact Or.inl ⟨_, rfl⟩
  obtain ⟨-, rfl⟩ := PageDecryptor.new_eq_ok_iff.1 hnew
  simp only
  rcases hpage : PageDecryptor.openPage C ⟨config, .derive C config passphrase ⟨first.take 16, htake⟩⟩ .min first with e | plain
  · exact Or.inl ⟨_, rfl⟩
  right
  refine ⟨source, size, ⟨first.take 16, htake⟩, hne, hstr, hopen, hlen, by omega,
    Nat.dvd_of_mod_eq_zero (not_not.1 hmul), hlt, first, plain, hread, rfl, ?_⟩
  rw [PageDecryptor.decryptPageInPlace_eq, hpage]
  rfl

/-- Without authentication there is an error, before the engine sees anything. -/
theorem openCodec_eq_error
    (h : ∀ source size salt, ¬ Authenticates C fs resolved config passphrase source size salt) :
    ∃ e, openCodec C fs resolved config passphrase walPages = some (.error e) := by
  rcases openCodec_cases C fs resolved config passphrase walPages with he | ⟨source, size, salt, hauth⟩
  · exact he
  · exact absurd hauth (h source size salt)

end Open

section File

variable {C : Primitives} {fs : FsView} {resolved : Path} {config : CipherConfig} {passphrase main plain : Bytes} {salt : Block}

/-- A file of whole pages authenticates by its first one. -/
theorem authenticates_file (hne : passphrase ≠ []) (hutf8 : toStr resolved = some resolved.bytes)
    (hopened : fs.openFile resolved = .ok (FileSource main)) (hle : config.pageSize ≤ main.length)
    (hwhole : config.pageSize ∣ main.length) (hcount : main.length / config.pageSize < 2 ^ 32)
    (hsalt : salt.toList = main.take 16) (hpage : PageDecryptor.openPage C ⟨config, .derive C config passphrase salt⟩ .min
      (main.take config.pageSize) = .ok plain) :
    Authenticates C fs resolved config passphrase (FileSource main) main.length salt where
  nonempty := hne
  utf8 := hutf8
  opened := hopened
  len := rfl
  positive := Nat.lt_of_lt_of_le config.pageSize_pos hle
  whole := hwhole
  count := hcount
  page := by
    refine ⟨main.take config.pageSize, plain, ?_, ?_, ?_⟩
    · rw [FileSource.readExactAt_eq (by rw [List.length_replicate]; omega), List.length_replicate, List.drop_zero]
    · have hps := config.pageSize_ge
      rw [hsalt, List.take_take, Nat.min_eq_left (by omega)]
    · rw [PageDecryptor.decryptPageInPlace_eq, hpage, Filled.closed_ok]

/-- Its salt is at the start of it, and its first page opens under the key. -/
theorem Authenticates.first_page (h : Authenticates C fs resolved config passphrase (FileSource main) main.length salt) :
    salt.toList = main.take 16 ∧ ∃ plain, PageDecryptor.openPage C ⟨config, .derive C config passphrase salt⟩ .min
      (main.take config.pageSize) = .ok plain := by
  obtain ⟨first, plain, hread, htake, hpage⟩ := h.page
  have hle := Nat.le_of_dvd h.positive h.whole
  have hps := config.pageSize_ge
  rw [FileSource.readExactAt_eq (by rw [List.length_replicate]; omega)] at hread
  have hfirst : main.take config.pageSize = first := by simpa using congrArg Filled.buffer hread
  rw [PageDecryptor.decryptPageInPlace_eq, Option.some.injEq, Filled.closed_eq_ok_iff] at hpage
  constructor
  · rw [htake, ← hfirst, List.take_take, Nat.min_eq_left (by omega)]
  · exact ⟨plain, hfirst ▸ hpage⟩

end File

/-! ## The one-page database in a file system -/

def IoError.missing : IoError := .new .notFound "No such file or directory (os error 2)"

/-- A file system of regular files under their canonical paths, without links. -/
def FsView.flat (files : Path → Option Bytes) : FsView where
  symlinkMetadata path := (files path).elim (.error IoError.missing) fun content => .ok ⟨true, content.length⟩
  metadata path := (files path).elim (.error IoError.missing) fun content => .ok ⟨true, content.length⟩
  canonicalize path := (files path).elim (.error IoError.missing) fun _ => .ok path
  openFile path := (files path).elim (.error IoError.missing) fun content => .ok (FileSource content)
  fileId path := path.bytes.foldl (fun id byte => 256 * id + byte.toNat) 1

/-- `/db`. -/
def samplePath : Path := ⟨[0x2f, 0x64, 0x62]⟩

/-- The sample database at `/db`, with nothing beside it. -/
def sampleFs : FsView := .flat fun path => if path = samplePath then some samplePage else none

/-- Page 1 of the sample database authenticates under any primitives that give its keys and open the page. -/
theorem authenticates_of_openPage {C : Primitives} {fs : FsView} {plain : Bytes}
    (hkeys : KeyMaterial.derive C sampleConfig samplePassphrase sampleSalt = sampleKeys)
    (hopen : sampleDecryptor.openPage C .min samplePage = .ok plain)
    (hfs : fs.openFile samplePath = .ok (FileSource samplePage)) :
    Authenticates C fs samplePath sampleConfig samplePassphrase (FileSource samplePage) 1024 sampleSalt := by
  have hwhole : samplePage.take sampleConfig.pageSize = samplePage := List.take_of_length_le length_samplePage.le
  have hpage : PageDecryptor.openPage C ⟨sampleConfig, .derive C sampleConfig samplePassphrase sampleSalt⟩ .min
      (samplePage.take sampleConfig.pageSize) = .ok plain := by
    rw [hkeys, hwhole]
    exact hopen
  have hauth : Authenticates C fs samplePath sampleConfig samplePassphrase (FileSource samplePage) samplePage.length sampleSalt := by
    refine authenticates_file (by decide) (by decide) hfs length_samplePage.ge ?_ ?_ (by decide +kernel) hpage
    · rw [length_samplePage]
      decide
    · rw [length_samplePage]
      decide
  rwa [length_samplePage] at hauth

theorem authenticates_sample {fs : FsView} (hfs : fs.openFile samplePath = .ok (FileSource samplePage)) :
    Authenticates sample fs samplePath sampleConfig samplePassphrase (FileSource samplePage) 1024 sampleSalt :=
  authenticates_of_openPage derive_sample openPage_samplePage hfs

end Veilite.Turso

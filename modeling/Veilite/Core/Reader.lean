/-
`reader.rs`: the authenticated random-access reader over a source. A reader carries what `open`
established about the physical file: a positive page count below 2^32, whose pages are the file.
-/
import Veilite.Core.Source

namespace Veilite.Core

open Buffer

def databaseSaltSize : Nat := 16

/-- Error returned while opening or reading an encrypted database source. -/
inductive ReaderError (E : Type)
  | source (error : E)
  | decrypt (error : DecryptError)
  | invalidOutputPageLength (expected actual : Nat)
  | emptyFile
  | fileTooSmall (fileSize pageSize : Nat)
  | invalidFileSize (fileSize pageSize : Nat)
  | tooManyPages (pageCount : Nat)
  | pageOutOfRange (pageNo pageCount : Nat)
  | offsetOverflow (offset length : Nat)
  | unexpectedEof (offset length fileSize : Nat)
deriving DecidableEq

def ReaderError.message : ReaderError IoError → Message
  | .source error => .text "source read failed: " :: error.message
  | .decrypt error => [.text s!"database decryption failed: {error.toString}"]
  | .invalidOutputPageLength expected actual =>
    [.text s!"invalid output page length: expected {expected} bytes, got {actual}"]
  | .emptyFile => [.text "the encrypted database is empty"]
  | .fileTooSmall fileSize pageSize =>
    [.text s!"encrypted database is shorter than one page: {fileSize} bytes for a {pageSize}-byte page"]
  | .invalidFileSize fileSize pageSize =>
    [.text s!"encrypted database size {fileSize} is not a multiple of page size {pageSize}"]
  | .tooManyPages pageCount => [.text s!"encrypted database has too many pages: {pageCount}"]
  | .pageOutOfRange pageNo pageCount =>
    [.text s!"page {pageNo} is outside the database page range 1..={pageCount}"]
  | .offsetOverflow offset length => [.text s!"read range at offset {offset} with length {length} overflows"]
  | .unexpectedEof offset length fileSize =>
    [.text s!"read range at offset {offset} with length {length} exceeds database size {fileSize}"]

/-- Authenticated random-access reader for an immutable SQLCipher main database. -/
structure SqlCipherReader (σ E : Type) where
  source : ReadAt σ E
  decryptor : PageDecryptor
  fileSize : Nat
  pageCount : Nat
  fileSize_eq : pageCount * decryptor.config.pageSize = fileSize
  pageCount_pos : 0 < pageCount
  pageCount_lt : pageCount < 2 ^ 32

/-- `page_number_from_index`. -/
def pageNumberFromIndex (index : Nat) : Option NonZeroU32 := do
  let number ← checkedAdd 64 index 1
  NonZeroU32.new (← tryFrom 32 number)

/-- `SqlCipherReader::open`: the checks of the physical length, the salt, the keys. -/
def SqlCipherReader.open {σ E : Type} (C : Primitives) (source : ReadAt σ E) (config : CipherConfig)
    (passphrase : Bytes) (s : σ) : Except (ReaderError E) (SqlCipherReader σ E) × σ :=
  match source.len s with
  | (.error e, s) => (.error (.source e), s)
  | (.ok fileSize, s) =>
    let pageSize := config.pageSize
    if h0 : fileSize = 0 then (.error .emptyFile, s)
    else if hsmall : fileSize < pageSize then (.error (.fileTooSmall fileSize pageSize), s)
    else if hmul : fileSize % pageSize ≠ 0 then (.error (.invalidFileSize fileSize pageSize), s)
    else
      let pageCount := fileSize / pageSize
      if hcount : pageCount < 2 ^ 32 then
        let read := source.readExactAt 0 (List.replicate databaseSaltSize 0) s
        match read.1.result with
        | .error e => (.error (.source e), read.2)
        | .ok () =>
          let salt : Block := ⟨read.1.buffer, (source.length_readExactAt _ _ _).trans (by simp [databaseSaltSize])⟩
          match hd : PageDecryptor.new C config passphrase salt with
          | .error e => (.error (.decrypt e), read.2)
          | .ok decryptor =>
            (.ok {
              source, decryptor, fileSize, pageCount
              fileSize_eq := by
                rw [PageDecryptor.new_config C hd]
                exact Nat.div_mul_cancel (Nat.dvd_of_mod_eq_zero (not_not.1 hmul))
              pageCount_pos := Nat.div_pos (by omega) config.pageSize_pos
              pageCount_lt := hcount }, read.2)
      else (.error (.tooManyPages pageCount), s)

namespace SqlCipherReader

variable {σ E : Type} (C : Primitives) (r : SqlCipherReader σ E)

abbrev pageSize : Nat := r.decryptor.pageSize

/-- Authenticates and decrypts one physical page into `output`, which is cleared on failure. -/
def readPageInto (pageNo : NonZeroU32) (output : Bytes) (s : σ) : Option (Filled (ReaderError E) UInt8 × σ) :=
  let pageSize := r.pageSize
  if output.length ≠ pageSize then
    some (⟨.error (.invalidOutputPageLength pageSize output.length), zeroize output⟩, s)
  else do
    let output := zeroize output
    let pageNumber := pageNo.get
    if pageNumber > r.pageCount then
      return (⟨.error (.pageOutOfRange pageNumber r.pageCount), output⟩, s)
    let pageIndex ← sub pageNumber 1
    match checkedMul 64 pageIndex pageSize with
    | none => return (⟨.error (.offsetOverflow pageIndex pageSize), output⟩, s)
    | some encryptedOffset =>
      let read := r.source.readExactAt encryptedOffset output s
      match read.1.result with
      | .error e => return (⟨.error (.source e), zeroize read.1.buffer⟩, read.2)
      | .ok () =>
        let page ← r.decryptor.decryptPageInPlace C pageNo read.1.buffer
        match page.result with
        | .error e => return (⟨.error (.decrypt e), page.buffer⟩, read.2)
        | .ok () => return (⟨.ok (), page.buffer⟩, read.2)

/-- The `while output_offset < output.len()` loop. It ends because every round copies at least one byte;
`none` is a panic, or a loop that outlives its fuel. `offset` is the range's start, for the errors. -/
def copyPages (offset : Nat) : (fuel : Nat) → (databaseOffset outputOffset : Nat) → (plaintextPage output : Bytes) →
    σ → Option (Filled (ReaderError E) UInt8 × σ)
  | fuel, databaseOffset, outputOffset, plaintextPage, output, s =>
    if outputOffset < output.length then
      match fuel with
      | 0 => none
      | fuel + 1 => do
        let overflow : ReaderError E := .offsetOverflow offset output.length
        let (pageIndex, remainder) ← divRem databaseOffset r.pageSize
        match pageNumberFromIndex pageIndex with
        | none => return (⟨.error overflow, output⟩, s)
        | some pageNumber => match tryFrom 64 remainder with
          | none => return (⟨.error overflow, output⟩, s)
          | some offsetInPage =>
            let copyLength := min (← sub r.pageSize offsetInPage) (← sub output.length outputOffset)
            let (read, s) ← r.readPageInto C pageNumber plaintextPage s
            match read.result with
            | .error e => return (⟨.error e, output⟩, s)
            | .ok () =>
              let range ← slice read.buffer offsetInPage (offsetInPage + copyLength)
              let output ← copyFrom output outputOffset (outputOffset + copyLength) range
              match tryFrom 64 copyLength with
              | none => return (⟨.error overflow, output⟩, s)
              | some copied => match checkedAdd 64 databaseOffset copied with
                | none => return (⟨.error overflow, output⟩, s)
                | some databaseOffset =>
                  copyPages offset fuel databaseOffset (outputOffset + copyLength) read.buffer output s
    else some (⟨.ok (), output⟩, s)

def readExactAtNonempty (offset : Nat) (output : Bytes) (s : σ) : Option (Filled (ReaderError E) UInt8 × σ) :=
  let overflow : ReaderError E := .offsetOverflow offset output.length
  match tryFrom 64 output.length with
  | none => some (⟨.error overflow, output⟩, s)
  | some length => match checkedAdd 64 offset length with
    | none => some (⟨.error overflow, output⟩, s)
    | some stop =>
      if stop > r.fileSize then
        some (⟨.error (.unexpectedEof offset output.length r.fileSize), output⟩, s)
      else do
        -- a complete aligned page goes directly into the caller's buffer
        let (pageIndex, remainder) ← divRem offset r.pageSize
        if output.length = r.pageSize ∧ remainder = 0 then
          match pageNumberFromIndex pageIndex with
          | none => return (⟨.error overflow, output⟩, s)
          | some pageNumber => r.readPageInto C pageNumber output s
        else r.copyPages C offset output.length offset 0 (List.replicate r.pageSize 0) output s

/-- Reads an exact range from the logical plaintext image; `output` is cleared on failure. -/
def readExactAt (offset : Nat) (output : Bytes) (s : σ) : Option (Filled (ReaderError E) UInt8 × σ) :=
  if output = [] then some (⟨.ok (), output⟩, s)
  else do
    let (read, s) ← r.readExactAtNonempty C offset (zeroize output) s
    match read.result with
    | .error e => return (⟨.error e, zeroize read.buffer⟩, s)
    | .ok () => return (⟨.ok (), read.buffer⟩, s)

end SqlCipherReader

end Veilite.Core

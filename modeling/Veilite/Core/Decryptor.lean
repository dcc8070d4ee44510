/-
`decryptor.rs`: key derivation and the authenticated decryption of one page in place. A function
that can panic (a slice, a subtraction, an `expect`) returns an `Option`, none being the panic; a
`&mut [u8]` argument is returned with the `Result` as `Filled`.
-/
import Veilite.Core.Config
import Veilite.Lib.Cbc

namespace Veilite.Core

open Buffer

abbrev Bytes := List UInt8
abbrev Block := Arr UInt8 16
abbrev Key := Arr UInt8 32

/-- `zeroize`, and `fill(0)`. -/
abbrev zeroize (buffer : Bytes) : Bytes := fill 0 buffer

/-- The third-party primitives with what the code relies on, carried by the types: AES-256 is a
permutation of the 16-byte blocks for every key, a tag is as long as its digest, PBKDF2 fills a
32-byte key and SHA-256 yields 32 bytes. -/
structure Primitives where
  aes256 : Key → Equiv.Perm Block
  hmac : (algorithm : HashAlgorithm) → Key → Bytes → Arr UInt8 algorithm.outputLen
  pbkdf2Hmac : HashAlgorithm → Bytes → Bytes → Nat → Key
  sha256 : Bytes → Arr UInt8 32

/-- The exclusive or of two blocks. -/
def Block.xor (a b : Block) : Block := a.zipWith (· ^^^ ·) b

theorem Block.xor_xor (a b : Block) : (a.xor b).xor b = a :=
  Arr.zipWith_cancel (by intro x y; rw [UInt8.xor_assoc, UInt8.xor_self, UInt8.xor_zero]) a b

/-- `NonZeroU32`. -/
@[ext] structure NonZeroU32 where
  get : Nat
  pos : 0 < get
  lt : get < 2 ^ 32
deriving DecidableEq

/-- `NonZeroU32::new`. -/
def NonZeroU32.new (n : Nat) : Option NonZeroU32 :=
  if h : 0 < n ∧ n < 2 ^ 32 then some ⟨n, h.1, h.2⟩ else none

theorem NonZeroU32.one_lt : 1 < 2 ^ 32 := by decide

/-- `NonZeroU32::MIN`. -/
def NonZeroU32.min : NonZeroU32 := ⟨1, Nat.one_pos, NonZeroU32.one_lt⟩

theorem NonZeroU32.new_eq_some {n : Nat} (h : 0 < n) (h' : n < 2 ^ 32) : NonZeroU32.new n = some ⟨n, h, h'⟩ :=
  dif_pos ⟨h, h'⟩

/-- `b"SQLite format 3\0"`. -/
def sqliteHeaderMagic : Bytes :=
  [0x53, 0x51, 0x4c, 0x69, 0x74, 0x65, 0x20, 0x66, 0x6f, 0x72, 0x6d, 0x61, 0x74, 0x20, 0x33, 0x00]

structure KeyMaterial where
  encryptionKey : Key
  hmacKey : Key
deriving DecidableEq

/-- Authenticated SQLCipher page decryptor. -/
structure PageDecryptor where
  config : CipherConfig
  keys : KeyMaterial
deriving DecidableEq

/-- Error returned while deriving keys or authenticating and decrypting a page. -/
inductive DecryptError
  | invalidPageLength (expected actual : Nat)
  | emptyPassphrase
  | invalidSqlitePageSize (expected actual : Nat)
  | invalidSqliteReserveSize (expected actual : Nat)
  | authenticationFailed (pageNo : Nat)
deriving DecidableEq, Repr

def DecryptError.toString : DecryptError → String
  | .invalidPageLength expected actual =>
    s!"invalid encrypted page length: expected {expected} bytes, got {actual}"
  | .emptyPassphrase => "the passphrase is empty"
  | .invalidSqlitePageSize expected actual =>
    s!"invalid SQLite page size in the decrypted header: expected {expected} bytes, got {actual}"
  | .invalidSqliteReserveSize expected actual =>
    s!"invalid SQLite reserve size in the decrypted header: expected {expected} bytes, got {actual}"
  | .authenticationFailed pageNo =>
    s!"authentication failed for page {pageNo}: wrong passphrase or corrupted data"

/-- `u16::from_be_bytes`, with 1 standing for 65536. -/
def decodeSqlitePageSize (hi lo : UInt8) : Nat :=
  let pageSize := be16 hi lo
  if pageSize = 1 then 65536 else pageSize

/-- `decrypt_padded::<NoPadding>`: none when the data is not block-aligned. -/
def decryptPadded (C : Primitives) (key : Key) (iv : Block) (data : Bytes) : Option Bytes :=
  Cbc.decryptBytes Block.xor (C.aes256 key) iv data

namespace PageDecryptor

variable (C : Primitives)

/-- `derive_key_into`: the three branches differ in the digest alone. -/
def deriveKeyInto (algorithm : HashAlgorithm) (password salt : Bytes) (iterations : Nat) : Key :=
  C.pbkdf2Hmac algorithm password salt iterations

/-- Derives page encryption and HMAC keys from a passphrase and database salt. -/
def new (config : CipherConfig) (passphrase : Bytes) (salt : Block) : Except DecryptError PageDecryptor :=
  if passphrase = [] then .error .emptyPassphrase
  else
    let hmacSalt := salt.toList.map (· ^^^ 0x3a)
    let encryptionKey := deriveKeyInto C config.kdfAlgorithm passphrase salt.toList config.kdfIterations
    let hmacKey := deriveKeyInto C config.kdfAlgorithm encryptionKey.toList hmacSalt 2
    .ok ⟨config, ⟨encryptionKey, hmacKey⟩⟩

theorem new_config {config : CipherConfig} {passphrase : Bytes} {salt : Block} {d : PageDecryptor}
    (h : new C config passphrase salt = .ok d) : d.config = config := by
  unfold new at h
  split at h
  · cases h
  · cases h; rfl

variable (d : PageDecryptor)

abbrev pageSize : Nat := d.config.pageSize

/-- The message a page's tag authenticates. -/
def macInput (ciphertext iv : Bytes) (pageNumber : Nat) : Bytes := ciphertext ++ iv ++ le32 pageNumber

/-- `verify_page_hmac`: the three branches differ in the digest alone. -/
def verifyPageHmac (ciphertext iv : Bytes) (pageNumber : Nat) (storedHmac : Bytes) : Except DecryptError Unit :=
  if (C.hmac d.config.hmacAlgorithm d.keys.hmacKey (macInput ciphertext iv pageNumber)).toList = storedHmac then .ok ()
  else .error (.authenticationFailed pageNumber)

/-- The page 1 branch: the magic over the salt, then the two header checks. -/
def restoreHeader (page : Bytes) : Option (Filled DecryptError UInt8) := do
  let page ← copyFrom page 0 sqliteHeaderMagic.length sqliteHeaderMagic
  let sqlitePageSize := decodeSqlitePageSize (← page[16]?) (← page[17]?)
  if sqlitePageSize ≠ d.config.pageSize then
    return ⟨.error (.invalidSqlitePageSize d.config.pageSize sqlitePageSize), page⟩
  let sqliteReserveSize := (← page[20]?).toNat
  if sqliteReserveSize ≠ d.config.reserveSize then
    return ⟨.error (.invalidSqliteReserveSize d.config.reserveSize sqliteReserveSize), page⟩
  return ⟨.ok (), page⟩

def decryptPageInPlaceInner (pageNo : NonZeroU32) (page : Bytes) : Option (Filled DecryptError UInt8) := do
  let pageNumber := pageNo.get
  let ciphertextOffset := if pageNumber = 1 then 16 else 0
  let ciphertextLen ← sub (← d.config.usableEnd) ciphertextOffset
  let ciphertextEnd := ciphertextOffset + ciphertextLen
  let ivEnd := ciphertextEnd + aesBlockSize
  let hmacEnd := ivEnd + d.config.hmacAlgorithm.outputLen
  let iv ← Arr.ofList 16 (← slice page ciphertextEnd ivEnd)
  match d.verifyPageHmac C (← slice page ciphertextOffset ciphertextEnd) iv.toList pageNumber
      (← slice page ivEnd hmacEnd) with
  | .error e => return ⟨.error e, page⟩
  | .ok () =>
    let ciphertext ← slice page ciphertextOffset ciphertextEnd
    let plaintext ← decryptPadded C d.keys.encryptionKey iv ciphertext
    let page ← copyFrom page ciphertextOffset ciphertextEnd plaintext
    let header ← if pageNumber = 1 then d.restoreHeader page else some ⟨.ok (), page⟩
    match header.result with
    | .error e => return ⟨.error e, header.buffer⟩
    | .ok () =>
      let usableEnd ← d.config.usableEnd
      let reserve ← slice header.buffer usableEnd header.buffer.length
      let page ← copyFrom header.buffer usableEnd header.buffer.length (zeroize reserve)
      return ⟨.ok (), page⟩

/-- Authenticates and decrypts one physical page in place; the buffer is cleared on every error. -/
def decryptPageInPlace (pageNo : NonZeroU32) (page : Bytes) : Option (Filled DecryptError UInt8) :=
  if page.length ≠ d.pageSize then
    some ⟨.error (.invalidPageLength d.pageSize page.length), zeroize page⟩
  else do
    let inner ← d.decryptPageInPlaceInner C pageNo page
    match inner.result with
    | .error e => return ⟨.error e, zeroize inner.buffer⟩
    | .ok () => return ⟨.ok (), inner.buffer⟩

end PageDecryptor

end Veilite.Core

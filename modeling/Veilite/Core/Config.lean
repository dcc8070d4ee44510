/-
`config.rs`: the hash algorithms, the validated cipher configuration and the two presets. A
`CipherConfig` carries what `CipherConfig::new` checked, so the page layout facts the decryptor
rests on (block-aligned ciphertext, a reserve that fits the page and a byte) hold of every one.
-/
import Veilite.Lib.Buffer

namespace Veilite.Core

open Buffer

def minPageSize : Nat := 1024
def maxPageSize : Nat := 65536
def maxKdfIterations : Nat := 2147483647
def aesBlockSize : Nat := 16
def ivSize : Nat := 16

/-- Hash algorithm used by PBKDF2 or page HMAC authentication. -/
inductive HashAlgorithm
  | sha1
  | sha256
  | sha512
deriving DecidableEq, Repr

def HashAlgorithm.outputLen : HashAlgorithm → Nat
  | .sha1 => 20
  | .sha256 => 32
  | .sha512 => 64

inductive CipherConfigError
  | invalidPageSize (pageSize : Nat)
  | invalidKdfIterations (kdfIterations : Nat)
deriving DecidableEq, Repr

def CipherConfigError.toString : CipherConfigError → String
  | .invalidPageSize pageSize =>
    s!"invalid cipher page size {pageSize}: expected a power of two from 1024 to 65536"
  | .invalidKdfIterations kdfIterations =>
    s!"invalid KDF iteration count {kdfIterations}: expected a value from 1 to 2147483647"

/-- A complete supported on-disk configuration: the fields are private, so every value has passed
`CipherConfig.new`. -/
@[ext] structure CipherConfig where
  pageSize : Nat
  kdfIterations : Nat
  kdfAlgorithm : HashAlgorithm
  hmacAlgorithm : HashAlgorithm
  pageSize_ok : minPageSize ≤ pageSize ∧ pageSize ≤ maxPageSize ∧ pageSize.isPowerOfTwo
  kdfIterations_ok : 1 ≤ kdfIterations ∧ kdfIterations ≤ maxKdfIterations
deriving DecidableEq

def CipherConfig.new (pageSize kdfIterations : Nat) (kdfAlgorithm hmacAlgorithm : HashAlgorithm) :
    Except CipherConfigError CipherConfig :=
  if hp : minPageSize ≤ pageSize ∧ pageSize ≤ maxPageSize ∧ pageSize.isPowerOfTwo then
    if hk : 1 ≤ kdfIterations ∧ kdfIterations ≤ maxKdfIterations then
      .ok ⟨pageSize, kdfIterations, kdfAlgorithm, hmacAlgorithm, hp, hk⟩
    else .error (.invalidKdfIterations kdfIterations)
  else .error (.invalidPageSize pageSize)

/-- `(IV_SIZE + output_len).next_multiple_of(AES_BLOCK_SIZE)`. -/
def reserveSizeFor (hmacAlgorithm : HashAlgorithm) : Nat :=
  (ivSize + hmacAlgorithm.outputLen + (aesBlockSize - 1)) / aesBlockSize * aesBlockSize

namespace CipherConfig

variable (config : CipherConfig)

def reserveSize : Nat := reserveSizeFor config.hmacAlgorithm

/-- `usable_end`: the subtraction panics when the reserve does not fit the page. -/
def usableEnd : Option Nat := sub config.pageSize config.reserveSize

/-! ## The layout of every valid configuration -/

/-- Bytes of a page before the reserve. -/
def usable : Nat := config.pageSize - config.reserveSize

/-- The reserve holds the IV and the tag. -/
theorem tag_fits : 16 + config.hmacAlgorithm.outputLen ≤ config.reserveSize := by
  unfold reserveSize
  cases config.hmacAlgorithm <;> decide

theorem reserveSize_eq : config.reserveSize = 48 ∨ config.reserveSize = 80 := by
  unfold reserveSize
  cases config.hmacAlgorithm <;> decide

theorem pageSize_ge : 1024 ≤ config.pageSize := config.pageSize_ok.1

theorem pageSize_le : config.pageSize ≤ 65536 := config.pageSize_ok.2.1

theorem pageSize_pos : 0 < config.pageSize := by have := config.pageSize_ge; omega

/-- A power of two from 1024 on is a multiple of 1024. -/
theorem pageSize_dvd : 1024 ∣ config.pageSize := by
  obtain ⟨k, hk⟩ := config.pageSize_ok.2.2
  have hge := config.pageSize_ge
  rw [hk] at hge ⊢
  have : 10 ≤ k := (Nat.pow_le_pow_iff_right (a := 2) (by omega)).1 hge
  exact pow_dvd_pow 2 this

theorem usable_add_reserve : config.usable + config.reserveSize = config.pageSize := by
  have := config.pageSize_ge
  have := config.reserveSize_eq
  unfold usable; omega

theorem usableEnd_eq : config.usableEnd = some config.usable :=
  sub_eq_some (by have := config.usable_add_reserve; omega)

theorem usable_ge : 944 ≤ config.usable := by
  have := config.pageSize_ge
  have := config.reserveSize_eq
  unfold usable; omega

/-- The ciphertext is block-aligned, with and without the salt before it. -/
theorem usable_dvd : 16 ∣ config.usable := by
  have h1 : 16 ∣ config.pageSize := dvd_trans (by decide) config.pageSize_dvd
  have := config.reserveSize_eq
  unfold usable; omega

end CipherConfig

/-! ## Presets -/

/-- A supported SQLCipher default on-disk configuration. -/
inductive CipherPreset
  | sqlCipher3
  | sqlCipher4
deriving DecidableEq, Repr

/-- `From<CipherPreset> for CipherConfig`; the `expect` on `new` is none. -/
def CipherPreset.config? (preset : CipherPreset) : Option CipherConfig :=
  let (pageSize, kdfIterations, kdfAlgorithm, hmacAlgorithm) := match preset with
    | .sqlCipher3 => (1024, 64000, HashAlgorithm.sha1, HashAlgorithm.sha1)
    | .sqlCipher4 => (4096, 256000, HashAlgorithm.sha512, HashAlgorithm.sha512)
  (CipherConfig.new pageSize kdfIterations kdfAlgorithm hmacAlgorithm).toOption

/-- Built-in presets are valid: the `expect` is never reached. -/
theorem CipherPreset.config?_isSome (preset : CipherPreset) : preset.config?.isSome = true := by
  cases preset <;> decide

/-- `From<CipherPreset> for CipherConfig`. -/
def CipherPreset.config (preset : CipherPreset) : CipherConfig := preset.config?.get preset.config?_isSome

end Veilite.Core

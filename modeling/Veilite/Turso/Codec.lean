/-
`codec.rs`: the page codec that authenticates and decrypts the engine's pages, and its identity, a
truncated digest of everything but the key that decides what a page means.
-/
import Veilite.Core.File

namespace Veilite.Turso

open Buffer Veilite.Core

/-- `turso::LimboError`, as far as the code names its variants. -/
inductive LimboError
  | invalidArgument (text : String)
  | readOnly
  | other (code : Nat)
deriving DecidableEq, Repr

/-- What the error displays, which the engine decides. -/
def LimboError.message : LimboError → Message
  | .invalidArgument text => [.foreign "LimboError::InvalidArgument" [text]]
  | .readOnly => [.foreign "LimboError::ReadOnly" []]
  | .other code => [.foreign "LimboError" [toString code]]

/-- Where the engine took a page from. -/
inductive PageLocation
  | database
  | wal
deriving DecidableEq, Repr

structure PageCodecContext where
  location : PageLocation
  pageNo : Nat
deriving DecidableEq, Repr

abbrev PageCodecId := Arr UInt8 16

structure SqlCipherCodec where
  decoder : PageDecryptor
  config : CipherConfig
  id : PageCodecId
  pageCount : Nat
  walPageLimit : Option Nat
deriving DecidableEq

def algorithmId : HashAlgorithm → UInt8
  | .sha1 => 1
  | .sha256 => 2
  | .sha512 => 3

/-- `b"veilite-sqlcipher-codec-v1"`. -/
def codecIdDomain : Bytes :=
  [0x76, 0x65, 0x69, 0x6c, 0x69, 0x74, 0x65, 0x2d, 0x73, 0x71, 0x6c, 0x63, 0x69, 0x70, 0x68, 0x65, 0x72, 0x2d,
    0x63, 0x6f, 0x64, 0x65, 0x63, 0x2d, 0x76, 0x31]

/-- What the codec identity digests, one `chain_update` after another. -/
def codecIdInput (config : CipherConfig) (salt : Block) (walPages : Option Nat) (walIdentity : Option Bytes) : Bytes :=
  codecIdDomain ++ le32 config.pageSize ++ le32 config.kdfIterations ++
    [algorithmId config.kdfAlgorithm, algorithmId config.hmacAlgorithm] ++ salt.toList ++
    [if walPages.isSome then 1 else 0] ++ walIdentity.getD []

namespace SqlCipherCodec

variable (C : Primitives)

/-- The first half of the digest: a format identity, which says nothing about the key. -/
def codecId (config : CipherConfig) (salt : Block) (walPages : Option Nat) (walIdentity : Option Bytes) : PageCodecId :=
  ⟨(C.sha256 (codecIdInput config salt walPages walIdentity)).toList.take 16, by simp⟩

def new (decoder : PageDecryptor) (config : CipherConfig) (salt : Block) (pageCount : Nat) (walPages : Option Nat)
    (walIdentity : Option Bytes) : SqlCipherCodec where
  decoder := decoder
  config := config
  id := codecId C config salt walPages walIdentity
  pageCount := pageCount
  walPageLimit := walPages.map fun frames => saturatingAdd 32 pageCount frames

variable (codec : SqlCipherCodec)

/-- The physical bound of the page's location. -/
def inRange (ctx : PageCodecContext) : Bool :=
  match ctx.location with
  | .database => ctx.pageNo ≤ codec.pageCount
  | .wal => codec.walPageLimit.any fun limit => ctx.pageNo ≤ limit

/-- `decode_page`: the page in `input`, authenticated and decrypted into `output`. -/
def decodePage (ctx : PageCodecContext) (input output : Bytes) : Option (Filled LimboError UInt8) :=
  let output := zeroize output
  if ¬ codec.inRange ctx ∨ input.length ≠ codec.config.pageSize ∨ output.length ≠ input.length then
    some ⟨.error (.invalidArgument "unsupported SQLCipher page source, number, or length"), output⟩
  else match NonZeroU32.new ctx.pageNo with
    | none => some ⟨.error (.invalidArgument "SQLCipher page zero"), output⟩
    | some pageNo => do
      let output ← copyFrom output 0 output.length input
      let page ← codec.decoder.decryptPageInPlace C pageNo output
      match page.result with
      | .error e => return ⟨.error (.invalidArgument e.toString), page.buffer⟩
      | .ok () => return ⟨.ok (), page.buffer⟩

/-- The plaintext of a page of the engine, or why it has none. -/
def decoded (ctx : PageCodecContext) (input : Bytes) (outputLen : Nat) : Except LimboError Bytes :=
  if ¬ codec.inRange ctx ∨ input.length ≠ codec.config.pageSize ∨ outputLen ≠ input.length then
    .error (.invalidArgument "unsupported SQLCipher page source, number, or length")
  else match NonZeroU32.new ctx.pageNo with
    | none => .error (.invalidArgument "SQLCipher page zero")
    | some pageNo => (codec.decoder.openPage C pageNo input).mapError fun e => .invalidArgument e.toString

/-- `decode_page`, whatever the output held. -/
theorem decodePage_eq (ctx : PageCodecContext) (input output : Bytes) :
    codec.decodePage C ctx input output = some (.closed output.length 0 (codec.decoded C ctx input output.length)) := by
  unfold decodePage decoded
  simp only [length_fill]
  split
  · rfl
  · rename_i hbad
    have hlen : input.length = output.length := by
      by_contra hne
      exact hbad (.inr (.inr (Ne.symm hne)))
    rcases NonZeroU32.new ctx.pageNo with _ | pageNo
    · rfl
    have hcopy : copyFrom (zeroize output) 0 output.length input = some input := by
      rw [copyFrom_eq_some (Nat.zero_le _) (by simp) (by omega)]
      simp
    simp only [hcopy, Option.bind_eq_bind, Option.bind_some, codec.decoder.decryptPageInPlace_eq C, hlen]
    cases codec.decoder.openPage C pageNo input <;> rfl

theorem length_decoded {ctx : PageCodecContext} {input plain : Bytes} {outputLen : Nat}
    (h : codec.decoded C ctx input outputLen = .ok plain) : plain.length = outputLen := by
  unfold decoded at h
  split at h
  · cases h
  · rename_i hbad
    split at h
    · cases h
    · rename_i pageNo _
      rcases hopen : codec.decoder.openPage C pageNo input with e | p
      · rw [hopen] at h; cases h
      rw [hopen] at h
      cases h
      have hin := (codec.decoder.encodePage_of_openPage C hopen).1
      have := PageDecryptor.length_of_openPage hopen
      by_contra hne
      exact hbad (.inr (.inr (by omega)))

end SqlCipherCodec

/-! ## Failing closed -/

/-- Every operation that delivers a page returns, over any source, for any reader, codec, arguments and
previous buffer content; it keeps the buffer's length and clears it whenever it fails. -/
theorem pages_fail_closed (C : Primitives) :
    (∀ (d : PageDecryptor) (pageNo : NonZeroU32) (page : Bytes),
      FailsClosed 0 page.length (d.decryptPageInPlace C pageNo page)) ∧
    (∀ (σ E : Type) (r : SqlCipherReader σ E) (pageNo : NonZeroU32) (output : Bytes) (s : σ),
      FailsClosed 0 output.length ((r.readPageInto C pageNo output s).map Prod.fst)) ∧
    (∀ (σ E : Type) (r : SqlCipherReader σ E) (offset : Nat) (output : Bytes) (s : σ),
      FailsClosed 0 output.length ((r.readExactAt C offset output s).map Prod.fst)) ∧
    ∀ (codec : SqlCipherCodec) (ctx : PageCodecContext) (input output : Bytes),
      FailsClosed 0 output.length (codec.decodePage C ctx input output) := by
  refine ⟨fun d pageNo page => ?_, fun σ E r pageNo output s => ?_, fun σ E r offset output s => ?_,
    fun codec ctx input output => ?_⟩
  · rw [d.decryptPageInPlace_eq C]
    apply failsClosed_closed
    intro plain h
    rw [PageDecryptor.length_of_openPage h, (d.encodePage_of_openPage C h).1]
  · by_cases hlen : output.length = r.pageSize
    · rw [r.readPageInto_eq C hlen, Option.map_some, ← hlen]
      exact failsClosed_closed fun plain h => (r.length_fetchPage C h).trans hlen.symm
    · rw [r.readPageInto_of_length_ne C hlen, Option.map_some]
      have hclosed := failsClosed_closed (n := output.length) (x := (0 : UInt8))
        (r := .error (ReaderError.invalidOutputPageLength (E := E) r.pageSize output.length)) (by rintro plain ⟨⟩)
      exact hclosed
  · by_cases hempty : output = []
    · subst hempty
      exact ⟨⟨.ok (), []⟩, rfl, rfl, by rintro e ⟨⟩⟩
    · rw [r.readExactAt_eq C hempty, Option.map_some]
      exact failsClosed_closed fun bytes h => r.length_fetchRange C h
  · rw [codec.decodePage_eq C]
    exact failsClosed_closed fun plain h => codec.length_decoded C h

end Veilite.Turso

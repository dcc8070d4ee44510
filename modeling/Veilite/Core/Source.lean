/-
`source.rs`: random-access byte sources. A source sits behind `&self` but may keep a log, a cursor or
a cache there, so its calls pass a state; an immutable source is one whose state is `Unit`. A failing
read may leave anything in the caller's buffer, only its length is fixed.
-/
import Veilite.Core.Decryptor

namespace Veilite.Core

open Buffer

/-! ## I/O errors -/

/-- `std::io::ErrorKind`, as far as the code names its kinds. -/
inductive ErrorKind
  | notFound
  | alreadyExists
  | interrupted
  | unexpectedEof
  | invalidInput
  | invalidData
  | unsupported
  | brokenPipe
  | other (code : Nat)
deriving DecidableEq, Repr

/-- A path: the bytes of an `OsStr`. -/
@[ext] structure Path where
  bytes : Bytes
deriving DecidableEq, Repr

/-- What a message is formatted from: literal text, `{path:?}`, `path.display()`, and the display of an error from outside
the code, named by its variant and what it carries, for its text is not known here. -/
inductive Piece
  | text (s : String)
  | debug (path : Path)
  | display (path : Path)
  | foreign (variant : String) (fields : List String)
deriving DecidableEq, Repr

abbrev Message := List Piece

/-- `std::io::Error`: its kind and what it displays. -/
structure IoError where
  kind : ErrorKind
  message : Message
deriving DecidableEq, Repr

/-- `io::Error::new(kind, text)`. -/
def IoError.new (kind : ErrorKind) (text : String) : IoError := ⟨kind, [.text text]⟩

/-! ## Sources -/

/-- `trait ReadAt`. -/
structure ReadAt (σ E : Type) where
  readExactAt : (offset : Nat) → (output : Bytes) → σ → Filled E UInt8 × σ
  len : σ → Except E Nat × σ
  length_readExactAt : ∀ offset output s, (readExactAt offset output s).1.buffer.length = output.length

/-- `SliceSource::read_exact_at`. -/
def SliceSource.readExactAt (bytes : Bytes) (offset : Nat) (output : Bytes) : Filled IoError UInt8 :=
  match tryFrom 64 offset with
  | none => ⟨.error (.new .invalidInput "source offset does not fit in usize"), output⟩
  | some start => match checkedAdd 64 start output.length with
    | none => ⟨.error (.new .invalidInput "source range overflows usize"), output⟩
    | some stop => match slice bytes start stop with
      | none => ⟨.error (.new .unexpectedEof "source range extends past the end of the slice"), output⟩
      | some range => ⟨.ok (), range⟩

theorem SliceSource.length_readExactAt (bytes : Bytes) (offset : Nat) (output : Bytes) :
    (SliceSource.readExactAt bytes offset output).buffer.length = output.length := by
  unfold SliceSource.readExactAt
  split
  · rfl
  · split
    · rfl
    · rename_i start _ _ stop hstop
      split
      · rfl
      · rename_i range hrange
        have := length_of_slice hrange
        have := (checkedAdd_eq_some_iff.1 hstop).2
        simp only; omega

/-- An immutable byte slice as a source. -/
def SliceSource (bytes : Bytes) : ReadAt Unit IoError where
  readExactAt offset output _ := (SliceSource.readExactAt bytes offset output, ())
  len _ := (match tryFrom 64 bytes.length with
    | some n => .ok n
    | none => .error (.new .invalidData "slice length does not fit in u64"), ())
  length_readExactAt offset output _ := SliceSource.length_readExactAt bytes offset output

/-- `FileSource` on Unix, over an unchanging regular file: `File::read_exact_at` fills the buffer, or what
the file has of it and fails. -/
def FileSource (content : Bytes) : ReadAt Unit IoError where
  readExactAt offset output _ :=
    let available := (content.drop offset).take output.length
    (if available.length = output.length then ⟨.ok (), available⟩
      else ⟨.error (.new .unexpectedEof "failed to fill whole buffer"),
        available ++ output.drop available.length⟩, ())
  len _ := (.ok content.length, ())
  length_readExactAt offset output _ := by
    simp only
    split
    · assumption
    · simp

/-- A read inside the file returns the file's bytes. -/
theorem FileSource.readExactAt_eq {content : Bytes} {offset : Nat} {output : Bytes}
    (h : offset + output.length ≤ content.length) :
    (FileSource content).readExactAt offset output () =
      (⟨.ok (), (content.drop offset).take output.length⟩, ()) := by
  have : ((content.drop offset).take output.length).length = output.length := by simp; omega
  simp only [FileSource, if_pos this]

end Veilite.Core

/-
`main.rs`, reading the passphrase: `read_passphrase_line` takes the first line of whatever a reader delivers, in
pieces of any size. What it returns is a function of the bytes delivered, not of the pieces.
-/
import Mathlib.Data.List.TakeWhile
import Veilite.Cli.Commands

namespace Veilite.Cli

open Buffer Veilite.Core Traverse Turso

def newline : UInt8 := 0x0a

def carriageReturn : UInt8 := 0x0d

/-! ## The reader's side -/

/-- `io::Read::read`: the count or the error, and the buffer after the call. -/
abbrev Read (σ : Type) := (buffer : Bytes) → σ → (Except IoError Nat × Bytes) × σ

/-- What a reader has to deliver: bytes in non-empty pieces that fit the buffer, interruptions among them, and
the end of the input or an error at last. -/
inductive Delivery
  | eof
  | failed (error : IoError) (h : error.kind ≠ .interrupted)
  | interrupted (message : Message) (rest : Delivery)
  | chunk (bytes : Bytes) (h : bytes ≠ [] ∧ bytes.length ≤ 4096) (rest : Delivery)

namespace Delivery

/-- A read takes the next piece into the front of the buffer, and leaves what was behind it. -/
def read : Read Delivery
  | buffer, .eof => ((.ok 0, buffer), .eof)
  | buffer, .failed error h => ((.error error, buffer), .failed error h)
  | buffer, .interrupted message rest => ((.error ⟨.interrupted, message⟩, buffer), rest)
  | buffer, .chunk bytes _ rest => ((.ok bytes.length, bytes ++ buffer.drop bytes.length), rest)

/-- All bytes of it. -/
def bytes : Delivery → Bytes
  | .eof => []
  | .failed _ _ => []
  | .interrupted _ rest => rest.bytes
  | .chunk bytes _ rest => bytes ++ rest.bytes

/-- The error it ends with, if it does. -/
def error : Delivery → Option IoError
  | .eof => none
  | .failed error _ => some error
  | .interrupted _ rest => rest.error
  | .chunk _ _ rest => rest.error

/-- Pieces and interruptions before its end. -/
def length : Delivery → Nat
  | .eof => 0
  | .failed _ _ => 0
  | .interrupted _ rest => rest.length + 1
  | .chunk _ _ rest => rest.length + 1

/-- What is left once a piece with a newline has been read. -/
def afterLine : Delivery → Delivery
  | .eof => .eof
  | .failed error h => .failed error h
  | .interrupted _ rest => rest.afterLine
  | .chunk bytes _ rest => if newline ∈ bytes then rest else rest.afterLine

end Delivery

/-! ## The first line -/

section Line

variable {σ : Type} (input : Read σ)

/-- The loop of `read_passphrase_line`, over the passphrase so far and the reused buffer; `none` is a panic, or a
loop that outlives its fuel. -/
def readLine : (fuel : Nat) → (passphrase buffer : Bytes) → σ → Option (Except IoError Bytes × σ)
  | 0, _, _, _ => none
  | fuel + 1, passphrase, buffer, s =>
    let read := input buffer s
    match read.1.1 with
    | .error e =>
      if e.kind = .interrupted then readLine fuel passphrase read.1.2 read.2 else some (.error e, read.2)
    | .ok count =>
      if count = 0 then some (.ok passphrase, read.2)
      else do
        let bytes ← slice read.1.2 0 count
        match bytes.findIdx? (· == newline) with
        | some lineEnd => return (.ok (passphrase ++ (← slice read.1.2 0 lineEnd)), read.2)
        | none => readLine fuel (passphrase ++ bytes) read.1.2 read.2

/-- The passphrase without a carriage return at its end. -/
def trimCarriageReturn (passphrase : Bytes) : Bytes :=
  if passphrase.getLast? = some carriageReturn then passphrase.dropLast else passphrase

/-- `read_passphrase_line`. -/
def readPassphraseLine (fuel : Nat) (s : σ) : Option (Except IoError Bytes × σ) := do
  let line ← readLine input fuel [] (List.replicate 4096 0) s
  return (line.1.map trimCarriageReturn, line.2)

end Line

namespace Delivery

variable (delivery : Delivery)

/-- The first line of the bytes delivered, or all of them when they end without one. -/
def firstLine : Except IoError Bytes :=
  if newline ∈ delivery.bytes then .ok (delivery.bytes.takeWhile (· != newline))
  else match delivery.error with
  | some e => .error e
  | none => .ok delivery.bytes

end Delivery

/-! ## Rounds of the loop -/

/-- The line ends in the first piece that has a newline. -/
theorem takeWhile_append_of_mem {bytes rest : Bytes} (h : newline ∈ bytes) :
    (bytes ++ rest).takeWhile (· != newline) = bytes.takeWhile (· != newline) := by
  rw [List.takeWhile_append, if_neg]
  intro hall
  have heq : bytes.takeWhile (· != newline) = bytes := (List.takeWhile_prefix _).eq_of_length hall
  have hne := List.takeWhile_eq_self_iff.1 heq newline h
  simp at hne

/-- A piece without a newline is all part of the line. -/
theorem takeWhile_append_of_notMem {bytes rest : Bytes} (h : newline ∉ bytes) :
    (bytes ++ rest).takeWhile (· != newline) = bytes ++ rest.takeWhile (· != newline) := by
  apply List.takeWhile_append_of_pos
  intro byte hmem
  rw [bne_iff_ne]
  rintro rfl
  exact h hmem

/-- A read of a piece: the line goes on after it, or ends at its newline. What was in the buffer does not
matter. -/
theorem readLine_chunk {bytes : Bytes} (h : bytes ≠ [] ∧ bytes.length ≤ 4096) (rest : Delivery) (fuel : Nat)
    (passphrase buffer : Bytes) :
    readLine Delivery.read (fuel + 1) passphrase buffer (.chunk bytes h rest) =
      if newline ∈ bytes then some (.ok (passphrase ++ bytes.takeWhile (· != newline)), rest)
      else readLine Delivery.read fuel (passphrase ++ bytes) (bytes ++ buffer.drop bytes.length) rest := by
  have hcount : bytes.length ≠ 0 := fun h0 => h.1 (List.eq_nil_of_length_eq_zero h0)
  have hslice : ∀ {n}, n ≤ bytes.length → slice (bytes ++ buffer.drop bytes.length) 0 n = some (bytes.take n) := by
    intro n hn
    rw [slice_eq_some (Nat.zero_le n) (by rw [List.length_append]; omega), List.drop_zero, Nat.sub_zero,
      List.take_append_of_le_length hn]
  rw [readLine]
  simp only [Delivery.read, if_neg hcount, hslice (Nat.le_refl bytes.length), List.take_length, Option.bind_eq_bind,
    Option.bind_some]
  rcases hfind : bytes.findIdx? (· == newline) with _ | lineEnd
  · have hnot : newline ∉ bytes := by
      intro hmem
      have := List.findIdx?_eq_none_iff.1 hfind newline hmem
      simp at this
    rw [if_neg hnot]
  · obtain ⟨hlt, hend, hbefore⟩ := List.findIdx?_eq_some_iff_getElem.1 hfind
    have hmem : newline ∈ bytes := by
      rw [← eq_of_beq hend]
      exact List.getElem_mem hlt
    have hidx : bytes.takeWhile (· != newline) = bytes.take lineEnd := by
      rw [List.takeWhile_eq_take_findIdx_not]
      congr 1
      rw [← (List.findIdx?_eq_some_iff_findIdx_eq.1 hfind).2]
      congr 1
      funext byte
      rw [bne, Bool.not_not]
    rw [if_pos hmem, hidx]
    simp only [hslice (Nat.le_of_lt hlt), Option.bind_some, Option.pure_def]

/-- The loop returns the first line after what it has, and reads no further than the piece the line ends in. -/
theorem readLine_eq (delivery : Delivery) : ∀ (extra : Nat) (passphrase buffer : Bytes),
    readLine Delivery.read (delivery.length + 1 + extra) passphrase buffer delivery =
      some (delivery.firstLine.map (passphrase ++ ·), delivery.afterLine) := by
  induction delivery with
  | eof =>
    intro extra passphrase buffer
    rw [Nat.add_right_comm, readLine]
    simp [Delivery.read, Delivery.firstLine, Delivery.bytes, Delivery.error, Delivery.afterLine, Except.map]
  | failed error h =>
    intro extra passphrase buffer
    rw [Nat.add_right_comm, readLine]
    simp [Delivery.read, Delivery.firstLine, Delivery.bytes, Delivery.error, Delivery.afterLine, Except.map, h]
  | interrupted message rest ih =>
    intro extra passphrase buffer
    rw [Nat.add_right_comm, readLine]
    simp only [Delivery.read, if_true]
    have hlength : (Delivery.interrupted message rest).length + extra = rest.length + 1 + extra := rfl
    rw [hlength, ih]
    rfl
  | chunk bytes h rest ih =>
    intro extra passphrase buffer
    rw [Nat.add_right_comm, readLine_chunk]
    have hlength : (Delivery.chunk bytes h rest).length + extra = rest.length + 1 + extra := rfl
    by_cases hmem : newline ∈ bytes
    · rw [if_pos hmem, Delivery.firstLine, Delivery.bytes, if_pos (List.mem_append_left _ hmem),
        takeWhile_append_of_mem hmem, Delivery.afterLine, if_pos hmem]
      rfl
    · rw [if_neg hmem, hlength, ih, Delivery.afterLine, if_neg hmem]
      -- the bytes of this piece come before the rest's first line
      congr 2
      unfold Delivery.firstLine
      by_cases hrest : newline ∈ rest.bytes
      · have hboth : newline ∈ (Delivery.chunk bytes h rest).bytes := List.mem_append_right _ hrest
        rw [if_pos hrest, if_pos hboth, Delivery.bytes, takeWhile_append_of_notMem hmem]
        simp [Except.map]
      · have hnone : newline ∉ (Delivery.chunk bytes h rest).bytes := by
          rw [Delivery.bytes, List.mem_append]
          exact not_or.2 ⟨hmem, hrest⟩
        rw [if_neg hrest, if_neg hnone, Delivery.error]
        cases rest.error with
        | none => simp [Except.map, Delivery.bytes]
        | some e => rfl

theorem readPassphraseLine_eq (delivery : Delivery) (extra : Nat) :
    readPassphraseLine Delivery.read (delivery.length + 1 + extra) delivery =
      some (delivery.firstLine.map trimCarriageReturn, delivery.afterLine) := by
  unfold readPassphraseLine
  rw [readLine_eq]
  rcases hline : delivery.firstLine with e | line <;> rfl

/-- However a byte sequence is delivered, in pieces of any size with interruptions anywhere, the passphrase is
its first line, or all of it when it ends without a newline, less one carriage return at the end; an error
before the first newline is returned. No read follows the one that delivers a newline, and the reading ends. -/
theorem passphrase_of_delivery (delivery : Delivery) (extra : Nat) :
    readPassphraseLine Delivery.read (delivery.length + 1 + extra) delivery =
      some (if newline ∈ delivery.bytes then .ok (trimCarriageReturn (delivery.bytes.takeWhile (· != newline)))
        else match delivery.error with
        | some e => .error e
        | none => .ok (trimCarriageReturn delivery.bytes), delivery.afterLine) := by
  rw [readPassphraseLine_eq, Delivery.firstLine]
  split
  · rfl
  · cases delivery.error <;> rfl

/-- A carriage return and its newline in two reads, with an interruption between them. -/
example : (readPassphraseLine Delivery.read 4 (.chunk [0x61, 0x0d] (by decide) (.interrupted []
    (.chunk [0x0a, 0x62] (by decide) .eof)))).map (fun line => line.1.toOption) = some (some [0x61]) := by
  decide +kernel

/-! ## Where it comes from -/

/-- `read_passphrase_file`. -/
def readPassphraseFile (openFile : Path → Except IoError Delivery) (path : Path) : Option (Except IoError Bytes) :=
  let read : Option (Except IoError Bytes) := match openFile path with
    | .error e => some (.error e)
    | .ok file => (readPassphraseLine Delivery.read (file.length + 1) file).map Prod.fst
  read.map (Except.mapError (pathIoError "failed to read passphrase file" path))

/-- `read_passphrase`: the file's first line, or the answer to the prompt. -/
def readPassphrase (openFile : Path → Except IoError Delivery) (prompt : Except IoError Bytes) (passphraseFile : Option Path) :
    Option (Except IoError Bytes) :=
  match passphraseFile with
  | some path => readPassphraseFile openFile path
  | none => some prompt

/-- A file's passphrase is its first line, and reading it ends. -/
theorem readPassphraseFile_eq (openFile : Path → Except IoError Delivery) (path : Path) :
    readPassphraseFile openFile path = some ((((openFile path).bind Delivery.firstLine).map trimCarriageReturn).mapError
      (pathIoError "failed to read passphrase file" path)) := by
  unfold readPassphraseFile
  dsimp only
  rcases hopen : openFile path with e | file
  · rfl
  have hread := readPassphraseLine_eq file 0
  rw [Nat.add_zero] at hread
  simp only [hread, Option.map_some]
  rfl

theorem readPassphrase_isSome (openFile : Path → Except IoError Delivery) (prompt : Except IoError Bytes)
    (passphraseFile : Option Path) : (readPassphrase openFile prompt passphraseFile).isSome := by
  cases passphraseFile with
  | none => rfl
  | some path =>
    show (readPassphraseFile openFile path).isSome
    rw [readPassphraseFile_eq]
    rfl

/-- A world whose passphrase is read from these files or answers this prompt. -/
def World.reading (world : World) (openFile : Path → Except IoError Delivery) (prompt : Except IoError Bytes) : World :=
  { world with passphrase := fun passphraseFile =>
      (readPassphrase openFile prompt passphraseFile).get (readPassphrase_isSome openFile prompt passphraseFile) }

/-- Commands see of a passphrase file its first line alone: files that agree in theirs make one world, however they are
delivered and whatever follows. -/
theorem World.reading_eq_of_firstLine (world : World) {openFile openFile' : Path → Except IoError Delivery}
    (h : ∀ path, (openFile path).bind Delivery.firstLine = (openFile' path).bind Delivery.firstLine)
    (prompt : Except IoError Bytes) : world.reading openFile prompt = world.reading openFile' prompt := by
  have hread : readPassphrase openFile prompt = readPassphrase openFile' prompt := by
    funext passphraseFile
    cases passphraseFile with
    | none => rfl
    | some path =>
      show readPassphraseFile openFile path = readPassphraseFile openFile' path
      rw [readPassphraseFile_eq, readPassphraseFile_eq, h]
  unfold World.reading
  simp only [hread]

end Veilite.Cli
